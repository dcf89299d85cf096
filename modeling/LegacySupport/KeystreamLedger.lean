import LegacySupport.Arc4randomCore
import LegacySupport.Runs

/-!
Which keystream bytes a thread's generator hands out. Every byte handed out has an entry:
the rekey generation whose block it comes from and its position there. Entries are made in
increasing order, so none is made twice, and the zeroed part of the buffer is exactly what
has been handed out or kept back as the next key.
-/

namespace LegacySupport.Arc4random

open CInt Runs

structure Entry where
  generation : Nat
  position : Nat
  byte : UInt8

def entries (generation : Nat) : Nat → List UInt8 → List Entry
  | _, [] => []
  | position, byte :: bytes => ⟨generation, position, byte⟩ :: entries generation (position + 1) bytes

def fills : List Event → List Block
  | [] => []
  | .filled block :: rest => block :: fills rest
  | .stirred :: rest => fills rest
  | .handed _ _ :: rest => fills rest

def ledgerFrom (generation : Nat) : List Event → List Entry
  | [] => []
  | .filled _ :: rest => ledgerFrom (generation + 1) rest
  | .stirred :: rest => ledgerFrom generation rest
  | .handed position bytes :: rest =>
      entries generation position bytes ++ ledgerFrom generation rest

def ledger (log : List Event) : List Entry := ledgerFrom 0 log

def Entry.serial (entry : Entry) : Nat := entry.generation * rsbufsz + entry.position

def Entry.Genuine (log : List Event) (entry : Entry) : Prop :=
  ∃ block, 1 ≤ entry.generation ∧ (fills log)[entry.generation - 1]? = some block ∧
    block[entry.position]? = some entry.byte

theorem entries_bytes (generation position : Nat) (bytes : List UInt8) :
    (entries generation position bytes).map Entry.byte = bytes := by
  induction bytes generalizing position with
  | nil => rfl
  | cons byte bytes ih => simp [entries, ih]

theorem mem_entries {generation position : Nat} {bytes : List UInt8} {entry : Entry}
    (member : entry ∈ entries generation position bytes) :
    entry.generation = generation ∧ position ≤ entry.position ∧
      entry.position < position + bytes.length ∧
      bytes[entry.position - position]? = some entry.byte := by
  induction bytes generalizing position with
  | nil => simp [entries] at member
  | cons byte bytes ih =>
      simp only [entries, List.mem_cons] at member
      rcases member with first | later
      · subst first
        simp
      · obtain ⟨same, lower, upper, found⟩ := ih later
        have shift : entry.position - position = (entry.position - (position + 1)) + 1 := by omega
        refine ⟨same, by omega, by simp only [List.length_cons]; omega, ?_⟩
        rw [shift, List.getElem?_cons_succ]
        exact found

theorem entries_increasing (generation position : Nat) (bytes : List UInt8) :
    (entries generation position bytes).Pairwise fun first second =>
      first.serial < second.serial := by
  induction bytes generalizing position with
  | nil => simp [entries]
  | cons byte bytes ih =>
      simp only [entries, List.pairwise_cons]
      refine ⟨fun entry member => ?_, ih (position + 1)⟩
      obtain ⟨same, lower, _, _⟩ := mem_entries member
      simp only [Entry.serial, same]
      omega

@[simp] theorem fills_append (first second : List Event) :
    fills (first ++ second) = fills first ++ fills second := by
  induction first with
  | nil => rfl
  | cons event first ih => cases event <;> simp [fills, ih]

theorem ledgerFrom_append (generation : Nat) (first second : List Event) :
    ledgerFrom generation (first ++ second) =
      ledgerFrom generation first ++ ledgerFrom (generation + (fills first).length) second := by
  induction first generalizing generation with
  | nil => simp [ledgerFrom, fills]
  | cons event first ih =>
      cases event with
      | filled block =>
          simp only [List.cons_append, ledgerFrom, fills, ih, List.length_cons]
          congr 2
          omega
      | stirred => simp [ledgerFrom, fills, ih]
      | handed position bytes => simp [ledgerFrom, fills, ih]

@[simp] theorem ledger_filled (log : List Event) (block : Block) :
    ledger (log ++ [.filled block]) = ledger log := by
  simp [ledger, ledgerFrom_append, ledgerFrom]

@[simp] theorem ledger_stirred (log : List Event) : ledger (log ++ [.stirred]) = ledger log := by
  simp [ledger, ledgerFrom_append, ledgerFrom]

@[simp] theorem ledger_handed (log : List Event) (position : Nat) (bytes : List UInt8) :
    ledger (log ++ [.handed position bytes]) =
      ledger log ++ entries (fills log).length position bytes := by
  simp [ledger, ledgerFrom_append, ledgerFrom]

theorem Entry.Genuine.append {log : List Event} {entry : Entry} (genuine : entry.Genuine log)
    (more : List Event) : entry.Genuine (log ++ more) := by
  obtain ⟨block, positive, filled, byte⟩ := genuine
  refine ⟨block, positive, ?_, byte⟩
  rw [fills_append, List.getElem?_append_left (List.getElem?_eq_some_iff.mp filled).1]
  exact filled

/-! ## Buffer operations -/

theorem getElem_clear (buf : Block) (start count i : Nat) (bound : i < rsbufsz) :
    (buf.clear start count)[i] = if start ≤ i ∧ i < start + count then 0 else buf[i] := by
  simp [Block.clear]

theorem length_slice (buf : Block) {start count : Nat} (room : start + count ≤ rsbufsz) :
    (buf.slice start count).length = count := by
  simp only [Block.slice, List.length_take, List.length_drop, Vector.length_toList]
  omega

theorem getElem?_slice (buf : Block) {start count i : Nat} (bound : i < count) :
    (buf.slice start count)[i]? = buf[start + i]? := by
  simp [Block.slice, List.getElem?_take_of_lt bound, List.getElem?_drop]

theorem getElem_mix (buf : Block) (dat : List UInt8) (i : Nat) (bound : i < rsbufsz)
    (beyond : keysz + ivsz ≤ i) : (buf.mix dat)[i] = buf[i] := by
  have large : ¬ i < min dat.length (keysz + ivsz) := by omega
  simp only [Block.mix, Vector.getElem_ofFn]
  rw [if_neg large]
  rfl

/-! ## The invariant -/

structure Consistent (st : RandState) : Prop where
  have_le : st.rsHave ≤ 984
  zeroed : ∀ i (bound : i < rsbufsz), i < rsbufsz - st.rsHave → st.rsBuf[i] = 0
  current : 0 < st.rsHave → ∃ block, (fills st.log).getLast? = some block ∧
    ∀ i (bound : i < rsbufsz), rsbufsz - st.rsHave ≤ i → st.rsBuf[i] = block[i]
  genuine : ∀ entry ∈ ledger st.log, entry.Genuine st.log ∧ 40 ≤ entry.position
  increasing : (ledger st.log).Pairwise fun first second => first.serial < second.serial
  behind : ∀ entry ∈ ledger st.log,
    entry.serial < (fills st.log).length * rsbufsz + (rsbufsz - st.rsHave)

theorem consistent_zero : Consistent RandState.zero where
  have_le := by decide
  zeroed := by simp [RandState.zero, Block.zero]
  current := by simp [RandState.zero]
  genuine := by simp [RandState.zero, ledger, ledgerFrom]
  increasing := by simp [RandState.zero, ledger, ledgerFrom]
  behind := by simp [RandState.zero, ledger, ledgerFrom]

theorem Consistent.withCount {st : RandState} (consistent : Consistent st) (count : Nat) :
    Consistent { st with rsCount := count } := by
  obtain ⟨have_le, zeroed, current, genuine, increasing, behind⟩ := consistent
  exact ⟨have_le, zeroed, current, genuine, increasing, behind⟩

theorem rsRekey_rsHave (st : RandState) (dat : Option (List UInt8)) :
    (rsRekey st dat).rsHave = 984 := rfl

theorem rsRekey_spec (st : RandState) (dat : Option (List UInt8)) :
    ∃ block : Block, (rsRekey st dat).log = st.log ++ [.filled block] ∧
      ∀ i (bound : i < rsbufsz),
        (rsRekey st dat).rsBuf[i] = if i < 40 then 0 else block[i] := by
  have taken : keysz + ivsz = 40 := rfl
  refine ⟨Vector.ofFn fun i => (chachaEncryptBytes st.rsChacha rsbufsz).1.getD i.val 0,
    by simp only [rsRekey, rsInit], fun i bound => ?_⟩
  simp only [rsRekey, rsInit, getElem_clear, Nat.zero_le, true_and, Nat.zero_add, taken]
  split
  next => rfl
  next beyond =>
    cases dat with
    | none => rfl
    | some dat => exact getElem_mix _ dat i bound (by omega)

theorem Consistent.rsRekey {st : RandState} (consistent : Consistent st)
    (dat : Option (List UInt8)) : Consistent (rsRekey st dat) := by
  obtain ⟨block, log, buffer⟩ := rsRekey_spec st dat
  have left := rsRekey_rsHave st dat
  have size : rsbufsz = 1024 := rfl
  refine ⟨Nat.le_of_eq left, ?_, ?_, ?_, ?_, ?_⟩
  · intro i bound handed
    rw [buffer i bound, if_pos (by omega)]
  · intro _
    refine ⟨block, by simp [log, fills], fun i bound kept => ?_⟩
    rw [buffer i bound, if_neg (by omega)]
  · intro entry member
    rw [log, ledger_filled] at member
    rw [log]
    exact ⟨(consistent.genuine entry member).1.append _, (consistent.genuine entry member).2⟩
  · rw [log, ledger_filled]
    exact consistent.increasing
  · intro entry member
    rw [log, ledger_filled] at member
    have earlier := consistent.behind entry member
    rw [log, left, fills_append, List.length_append]
    simp only [fills, List.length_singleton, Nat.add_mul]
    omega

theorem rsStir_spec (st : RandState) (rnd : Entropy) :
    (rsStir st rnd).rsHave = 0 ∧ (rsStir st rnd).rsBuf = .zero ∧
      (rsStir st rnd).log = (Arc4random.rsRekey st (some rnd.toList)).log ++ [.stirred] :=
  ⟨rfl, rfl, rfl⟩

theorem Consistent.rsStir {st : RandState} (consistent : Consistent st) (rnd : Entropy) :
    Consistent (rsStir st rnd) := by
  have rekeyed := consistent.rsRekey (some rnd.toList)
  obtain ⟨left, buffer, log⟩ := rsStir_spec st rnd
  refine ⟨by omega, ?_, by omega, ?_, ?_, ?_⟩
  · intro i bound _
    simp [buffer, Block.zero]
  · intro entry member
    rw [log, ledger_stirred] at member
    rw [log]
    exact ⟨(rekeyed.genuine entry member).1.append _, (rekeyed.genuine entry member).2⟩
  · rw [log, ledger_stirred]
    exact rekeyed.increasing
  · intro entry member
    rw [log, ledger_stirred] at member
    have earlier := rekeyed.behind entry member
    rw [log, fills_append, left]
    simp only [fills, List.append_nil]
    omega

theorem hand_ledger (st : RandState) (m : Nat) :
    ledger (st.hand m).1.log =
      ledger st.log ++ entries (fills st.log).length (rsbufsz - st.rsHave) (st.hand m).2 :=
  ledger_handed _ _ _

theorem Consistent.hand {st : RandState} (consistent : Consistent st) {m : Nat}
    (positive : 0 < st.rsHave) (available : m ≤ st.rsHave) : Consistent (st.hand m).1 := by
  obtain ⟨block, last, copied⟩ := consistent.current positive
  have have_le := consistent.have_le
  have size : rsbufsz = 1024 := rfl
  have taken : (st.hand m).2.length = m := length_slice _ (by omega)
  have sameFills : fills (st.hand m).1.log = fills st.log := by simp [RandState.hand, fills]
  have blocks : 0 < (fills st.log).length := by
    cases filled : fills st.log with
    | nil => simp [filled] at last
    | cons => simp
  refine ⟨?_, ?_, ?_, ?_, ?_, ?_⟩
  · simp only [RandState.hand]
    omega
  · intro i bound handed
    simp only [RandState.hand] at handed ⊢
    rw [getElem_clear]
    split
    next => rfl
    next outside => exact consistent.zeroed i bound (by omega)
  · intro some_left
    refine ⟨block, by rw [sameFills]; exact last, fun i bound kept => ?_⟩
    simp only [RandState.hand] at some_left kept ⊢
    rw [getElem_clear, if_neg (by omega)]
    exact copied i bound (by omega)
  · intro entry member
    rw [hand_ledger, List.mem_append] at member
    rcases member with old | new
    · exact ⟨(consistent.genuine entry old).1.append _, (consistent.genuine entry old).2⟩
    · obtain ⟨generation, lower, upper, byte⟩ := mem_entries new
      rw [taken] at upper
      refine ⟨⟨block, by omega, ?_, ?_⟩, by omega⟩
      · rw [sameFills, generation, ← List.getLast?_eq_getElem?]
        exact last
      · have inside : entry.position < rsbufsz := by omega
        have source : (st.hand m).2[entry.position - (rsbufsz - st.rsHave)]? =
            some st.rsBuf[entry.position] := by
          change (st.rsBuf.slice (rsbufsz - st.rsHave) m)[_]? = _
          rw [getElem?_slice _ (by omega)]
          have position : rsbufsz - st.rsHave + (entry.position - (rsbufsz - st.rsHave)) =
              entry.position := by omega
          rw [position]
          exact Vector.getElem?_eq_getElem inside
        rw [Vector.getElem?_eq_getElem inside, ← copied entry.position inside lower, ← source]
        exact byte
  · rw [hand_ledger, List.pairwise_append]
    refine ⟨consistent.increasing, entries_increasing _ _ _, fun old member next new => ?_⟩
    have before := consistent.behind old member
    obtain ⟨generation, lower, _, _⟩ := mem_entries new
    simp only [Entry.serial, generation] at before ⊢
    omega
  · intro entry member
    rw [hand_ledger, List.mem_append] at member
    rw [sameFills]
    simp only [RandState.hand]
    rcases member with old | new
    · have before := consistent.behind entry old
      omega
    · obtain ⟨generation, lower, upper, _⟩ := mem_entries new
      rw [taken] at upper
      simp only [Entry.serial, generation]
      omega

/-! ## Requests -/

structure HandsOut (st : RandState) (next : RandState × List UInt8) : Prop where
  consistent : Consistent next.1
  entered : (ledger next.1.log).map Entry.byte = (ledger st.log).map Entry.byte ++ next.2

theorem Consistent.handsOut {st : RandState} (consistent : Consistent st) {m : Nat}
    (positive : 0 < st.rsHave) (available : m ≤ st.rsHave) : HandsOut st (st.hand m) where
  consistent := consistent.hand positive available
  entered := by rw [hand_ledger, List.map_append, entries_bytes]

theorem ledger_rsRekey (st : RandState) (dat : Option (List UInt8)) :
    ledger (Arc4random.rsRekey st dat).log = ledger st.log := by
  obtain ⟨block, log, _⟩ := rsRekey_spec st dat
  rw [log, ledger_filled]

theorem ledger_rsStir (st : RandState) (rnd : Entropy) :
    ledger (Arc4random.rsStir st rnd).log = ledger st.log := by
  rw [(rsStir_spec st rnd).2.2, ledger_stirred, ledger_rsRekey]

theorem Consistent.rsStirIfNeeded {st : RandState} (consistent : Consistent st) (abi : Abi)
    (len : Nat) (rnd : Entropy) : HandsOut st (rsStirIfNeeded abi st len rnd, []) := by
  simp only [Arc4random.rsStirIfNeeded]
  split
  · refine ⟨(consistent.rsStir rnd).withCount _, ?_⟩
    simp only [ledger_rsStir, List.append_nil]
  · exact ⟨consistent.withCount _, by simp⟩

theorem HandsOut.trans {st : RandState} {first second : RandState × List UInt8}
    (earlier : HandsOut st first) (later : HandsOut first.1 second) :
    HandsOut st (second.1, first.2 ++ second.2) where
  consistent := later.consistent
  entered := by
    rw [later.entered, earlier.entered, List.append_assoc]

theorem Consistent.rsRandomBufLoop {st : RandState} (consistent : Consistent st) (n : Nat) :
    HandsOut st (rsRandomBufLoop st n) := by
  fun_induction Arc4random.rsRandomBufLoop st n with
  | case1 st => exact ⟨consistent, by simp⟩
  | case2 st n more some_left m handed rest ih =>
      have copied : HandsOut st handed :=
        consistent.handsOut some_left (Nat.min_le_right n st.rsHave)
      exact copied.trans (ih copied.consistent)
  | case3 st n more empty ih =>
      have rest := ih (consistent.rsRekey none)
      exact ⟨rest.consistent, by rw [rest.entered, ledger_rsRekey]⟩

theorem Consistent.rsRandomBuf {st : RandState} (consistent : Consistent st) (abi : Abi) (n : Nat)
    (rnd : Entropy) : HandsOut st (rsRandomBuf abi st n rnd) := by
  have charged := consistent.rsStirIfNeeded abi n rnd
  exact charged.trans (charged.consistent.rsRandomBufLoop n)

/-- A leftover of less than a word is dropped, so a word never spans two blocks. -/
theorem Consistent.rsRandomU32 {st : RandState} (consistent : Consistent st) (abi : Abi)
    (rnd : Entropy) : HandsOut st (rsRandomU32 abi st rnd) := by
  have charged := consistent.rsStirIfNeeded abi 4 rnd
  suffices drawn : HandsOut (Arc4random.rsStirIfNeeded abi st 4 rnd)
      (Arc4random.rsRandomU32 abi st rnd) from charged.trans drawn
  have ready : Consistent (Arc4random.rsStirIfNeeded abi st 4 rnd) := charged.consistent
  simp only [Arc4random.rsRandomU32]
  split
  next short =>
    have rekeyed := ready.rsRekey none
    have left := rsRekey_rsHave (Arc4random.rsStirIfNeeded abi st 4 rnd) none
    have drawn := rekeyed.handsOut (by omega) (show 4 ≤ _ by omega)
    exact ⟨drawn.consistent, by rw [drawn.entered, ledger_rsRekey]⟩
  next enough => exact ready.handsOut (by omega) (by omega)

def uniformBytes (host : Host) (minimum : UInt32) : RandState → List Entropy → List UInt8
  | _, [] => []
  | st, rnd :: rnds =>
      let drawn := rsRandomU32 host.abi st rnd
      if host.wordOf drawn.2 ≥ minimum then drawn.2
      else drawn.2 ++ uniformBytes host minimum drawn.1 rnds

theorem Consistent.uniformLoop {st : RandState} (consistent : Consistent st) (host : Host)
    (minimum : UInt32) (rnds : List Entropy) :
    HandsOut st ((uniformLoop host minimum st rnds).1, uniformBytes host minimum st rnds) := by
  induction rnds generalizing st with
  | nil => exact ⟨consistent, by simp [Arc4random.uniformLoop, uniformBytes]⟩
  | cons rnd rnds ih =>
      have drawn := consistent.rsRandomU32 host.abi rnd
      simp only [Arc4random.uniformLoop, uniformBytes]
      split
      · exact drawn
      · exact drawn.trans (ih drawn.consistent)

def replied (host : Host) (st : RandState) : Request host.abi → List UInt8
  | .stir _ => []
  | .buf n _ rnd => (rsRandomBuf host.abi st n rnd).2
  | .u32 rnd => (rsRandomU32 host.abi st rnd).2
  | .uniform upperBound rnds =>
      if upperBound < 2 then [] else uniformBytes host (uniformMin upperBound) st rnds

theorem Consistent.serve {st : RandState} (consistent : Consistent st) (host : Host)
    (request : Request host.abi) : HandsOut st (serve host st request, replied host st request) := by
  cases request with
  | stir rnd => exact ⟨consistent.rsStir rnd, by simp [Arc4random.serve, replied, ledger_rsStir]⟩
  | buf n fits rnd => exact consistent.rsRandomBuf host.abi n rnd
  | u32 rnd => exact consistent.rsRandomU32 host.abi rnd
  | uniform upperBound rnds =>
      simp only [Arc4random.serve, replied, arc4randomUniform]
      split
      · exact ⟨consistent, by simp⟩
      · exact consistent.uniformLoop host _ rnds

/-! ## The keys -/

def inputOf (bytes : List UInt8) : Vector UInt32 16 :=
  Vector.ofFn fun word =>
    if word.val < 4 then u8to32Little sigma (4 * word.val)
    else if word.val < 12 then u8to32Little bytes (4 * (word.val - 4))
    else if word.val < 14 then 0
    else u8to32Little bytes (4 * (word.val - 6))

theorem u8to32Little_drop (bytes : List UInt8) (k offset : Nat) :
    u8to32Little (bytes.drop k) offset = u8to32Little bytes (k + offset) := by
  simp [u8to32Little, List.getD_eq_getElem?_getD, Nat.add_assoc]

theorem rsInit_input (st : RandState) (buf : List UInt8) :
    (rsInit st buf).rsChacha = ⟨inputOf buf⟩ := by
  simp only [rsInit, chachaIvsetup, chachaKeysetup, inputOf, ChachaCtx.mk.injEq]
  apply Vector.ext
  intro i bound
  interval_cases i <;> simp [u8to32Little_drop, keysz]

def blockOf (ctx : ChachaCtx) : Block :=
  Vector.ofFn fun i => (chachaEncryptBytes ctx rsbufsz).1.getD i.val 0

/-- The context after a history, and the entropy taken in it. The first forty bytes of a block make
the key and iv of the next, at a stir with entropy mixed in. -/
inductive Keyed : List Event → List Entropy → ChachaCtx → Prop
  | zero : Keyed [] [] ⟨Vector.replicate 16 0⟩
  | handed {log rnds ctx} (position : Nat) (bytes : List UInt8) : Keyed log rnds ctx →
      Keyed (log ++ [.handed position bytes]) rnds ctx
  | rekeyed {log rnds ctx} : Keyed log rnds ctx →
      Keyed (log ++ [.filled (blockOf ctx)]) rnds ⟨inputOf ((blockOf ctx).toList.take 40)⟩
  | stirred {log rnds ctx} (rnd : Entropy) : Keyed log rnds ctx →
      Keyed (log ++ [.filled (blockOf ctx), .stirred]) (rnds ++ [rnd])
        ⟨inputOf (((blockOf ctx).toList.take 40).zipWith (· ^^^ ·) rnd.toList)⟩

/-- A step that is offered the entropy `rnds`, and takes of it what it needs. -/
def Takes (st next : RandState) (rnds : List Entropy) : Prop :=
  ∀ taken, Keyed st.log taken st.rsChacha →
    ∃ more, more.Sublist rnds ∧ Keyed next.log (taken ++ more) next.rsChacha

theorem Takes.refl (st : RandState) (rnds : List Entropy) : Takes st st rnds :=
  fun _ keyed => ⟨[], List.nil_sublist rnds, by rwa [List.append_nil]⟩

theorem Takes.trans {st middle next : RandState} {first second : List Entropy}
    (earlier : Takes st middle first) (later : Takes middle next second) :
    Takes st next (first ++ second) := by
  intro taken keyed
  obtain ⟨some_taken, within, reached⟩ := earlier taken keyed
  obtain ⟨more, inside, ended⟩ := later _ reached
  rw [List.append_assoc] at ended
  exact ⟨some_taken ++ more, within.append inside, ended⟩

theorem Takes.nothing {st middle next : RandState} {rnds : List Entropy}
    (earlier : Takes st middle rnds) (later : Takes middle next []) : Takes st next rnds := by
  have both := earlier.trans later
  rwa [List.append_nil] at both

theorem takes_hand (st : RandState) (m : Nat) : Takes st (st.hand m).1 [] :=
  fun _ keyed => ⟨[], List.Sublist.refl [], by
    rw [List.append_nil]
    exact keyed.handed _ _⟩

theorem rsRekey_fills (st : RandState) (dat : Option (List UInt8)) :
    (rsRekey st dat).log = st.log ++ [.filled (blockOf st.rsChacha)] := by
  simp only [rsRekey, rsInit, blockOf]

theorem key_bytes (block : Block) : block.slice 0 (keysz + ivsz) = block.toList.take 40 := by
  rw [Block.slice, List.drop_zero]
  rfl

theorem rsRekey_key (st : RandState) :
    (rsRekey st none).rsChacha = ⟨inputOf ((blockOf st.rsChacha).toList.take 40)⟩ := by
  simp only [rsRekey, rsInit_input, ← blockOf.eq_1, key_bytes]

theorem takes_rsRekey (st : RandState) : Takes st (rsRekey st none) [] := by
  intro taken keyed
  refine ⟨[], List.Sublist.refl [], ?_⟩
  rw [List.append_nil, rsRekey_fills, rsRekey_key]
  exact keyed.rekeyed

theorem mix_front (block : Block) (rnd : Entropy) :
    (block.mix rnd.toList).slice 0 (keysz + ivsz) =
      (block.toList.take 40).zipWith (· ^^^ ·) rnd.toList := by
  have taken : keysz + ivsz = 40 := rfl
  have size : rsbufsz = 1024 := rfl
  apply List.ext_getElem?
  intro i
  by_cases front : i < 40
  · rw [taken, getElem?_slice _ front, Nat.zero_add, List.getElem?_zipWith_eq_some.mpr
      ⟨block[i], rnd[i], ?_, ?_, rfl⟩]
    · have few : i < min rnd.toList.length (keysz + ivsz) := by
        rw [Vector.length_toList, taken]
        omega
      rw [Vector.getElem?_eq_getElem (by omega)]
      simp only [Block.mix, Vector.getElem_ofFn, few, if_true]
      simp [List.getD_eq_getElem?_getD, front]
    · rw [List.getElem?_take_of_lt front]
      simp
    · simp
  · rw [List.getElem?_eq_none, List.getElem?_eq_none]
    · rw [List.length_zipWith, List.length_take]
      omega
    · rw [taken, length_slice _ (by omega)]
      omega

theorem rsStir_key (st : RandState) (rnd : Entropy) :
    (rsStir st rnd).rsChacha =
      ⟨inputOf (((blockOf st.rsChacha).toList.take 40).zipWith (· ^^^ ·) rnd.toList)⟩ := by
  simp only [rsStir, rsRekey, rsInit_input, ← blockOf.eq_1, mix_front]

theorem takes_rsStir (st : RandState) (rnd : Entropy) : Takes st (rsStir st rnd) [rnd] := by
  intro taken keyed
  refine ⟨[rnd], List.Sublist.refl _, ?_⟩
  have log : (rsStir st rnd).log = st.log ++ [.filled (blockOf st.rsChacha), .stirred] := by
    rw [(rsStir_spec st rnd).2.2, rsRekey_fills, List.append_assoc]
    rfl
  rw [log, rsStir_key]
  exact keyed.stirred rnd

theorem takes_rsStirIfNeeded (abi : Abi) (st : RandState) (len : Nat) (rnd : Entropy) :
    Takes st (rsStirIfNeeded abi st len rnd) [rnd] := by
  intro taken keyed
  simp only [rsStirIfNeeded]
  split
  · exact takes_rsStir st rnd taken keyed
  · exact Takes.refl st [rnd] taken keyed

theorem takes_rsRandomBufLoop (st : RandState) (n : Nat) :
    Takes st (rsRandomBufLoop st n).1 [] := by
  fun_induction Arc4random.rsRandomBufLoop st n with
  | case1 st => exact Takes.refl st []
  | case2 st n more some_left m handed rest ih => exact (takes_hand st m).trans ih
  | case3 st n more empty ih => exact (takes_rsRekey st).trans ih

theorem takes_rsRandomU32 (abi : Abi) (st : RandState) (rnd : Entropy) :
    Takes st (rsRandomU32 abi st rnd).1 [rnd] := by
  refine (takes_rsStirIfNeeded abi st 4 rnd).nothing ?_
  simp only [rsRandomU32]
  split
  · exact (takes_rsRekey _).trans (takes_hand _ 4)
  · exact takes_hand _ 4

theorem takes_uniformLoop (host : Host) (minimum : UInt32) (rnds : List Entropy) :
    ∀ st, Takes st (uniformLoop host minimum st rnds).1 rnds := by
  induction rnds with
  | nil => exact fun st => Takes.refl st []
  | cons rnd rnds ih =>
      intro st
      have drawn := takes_rsRandomU32 host.abi st rnd
      simp only [uniformLoop]
      split
      · exact drawn.trans (Takes.refl _ rnds)
      · exact drawn.trans (ih _)

def Request.entropy {abi : Abi} : Request abi → List Entropy
  | .stir rnd => [rnd]
  | .buf _ _ rnd => [rnd]
  | .u32 rnd => [rnd]
  | .uniform _ rnds => rnds

theorem takes_serve (host : Host) (st : RandState) (request : Request host.abi) :
    Takes st (serve host st request) request.entropy := by
  cases request with
  | stir rnd => exact takes_rsStir st rnd
  | buf n fits rnd =>
      exact (takes_rsStirIfNeeded host.abi st n rnd).nothing (takes_rsRandomBufLoop _ n)
  | u32 rnd => exact takes_rsRandomU32 host.abi st rnd
  | uniform upperBound rnds =>
      simp only [serve, arc4randomUniform, Request.entropy]
      split
      · exact Takes.refl st rnds
      · exact takes_uniformLoop host _ rnds st

theorem takes_run (host : Host) (requests : List (Request host.abi)) : ∀ st,
    Takes st (requests.foldl (serve host) st) (requests.flatMap Request.entropy) := by
  induction requests with
  | nil => exact fun st => Takes.refl st []
  | cons request requests ih =>
      intro st
      exact (takes_serve host st request).trans (ih _)

/-! ## Runs -/

def transcript (host : Host) : RandState → List (Request host.abi) → List UInt8
  | _, [] => []
  | st, request :: requests =>
      replied host st request ++ transcript host (serve host st request) requests

theorem Consistent.run {st : RandState} (consistent : Consistent st) (host : Host)
    (requests : List (Request host.abi)) :
    HandsOut st (requests.foldl (Arc4random.serve host) st, transcript host st requests) := by
  induction requests generalizing st with
  | nil => exact ⟨consistent, by simp [transcript]⟩
  | cons request requests ih =>
      have served := consistent.serve host request
      exact served.trans (ih served.consistent)

theorem Consistent.nodup {st : RandState} (consistent : Consistent st) :
    ((ledger st.log).map fun entry => (entry.generation, entry.position)).Nodup := by
  rw [List.Nodup, List.pairwise_map]
  refine consistent.increasing.imp fun before same => ?_
  obtain ⟨generation, position⟩ := Prod.mk.inj same
  simp only [Entry.serial, generation, position] at before
  exact absurd before (Nat.lt_irrefl _)

/-- In every run of a generator that starts zeroed, the unused part of the buffer is at most
984 bytes and the rest of it is zero; the bytes handed out are, in order, the bytes of the
ledger, each of them the byte at position 40 or later of the block of its generation; no
generation and position are handed out twice; and it is the 40 bytes before that make the key and
iv of the next generation. -/
theorem keystream_handedOnce (host : Host) (requests : List (Request host.abi)) :
    let st := requests.foldl (serve host) RandState.zero
    st.rsHave ≤ 984 ∧
      (∀ i (bound : i < rsbufsz), i < 1024 - st.rsHave → st.rsBuf[i] = 0) ∧
      (ledger st.log).map Entry.byte = transcript host RandState.zero requests ∧
      (∀ entry ∈ ledger st.log, entry.Genuine st.log ∧ 40 ≤ entry.position) ∧
      ((ledger st.log).map fun entry => (entry.generation, entry.position)).Nodup ∧
      ∃ rnds, rnds.Sublist (requests.flatMap Request.entropy) ∧
        Keyed st.log rnds st.rsChacha := by
  have run := consistent_zero.run host requests
  exact ⟨run.consistent.have_le, run.consistent.zeroed, run.entered, run.consistent.genuine,
    run.consistent.nodup, takes_run host requests RandState.zero [] Keyed.zero⟩

end LegacySupport.Arc4random
