import LegacySupport.Fmemopen
import LegacySupport.Pieces

/-!
What a write leaves of the data of a memory stream. In text mode it stores a terminator behind the
bytes it accepts, whether the data end there or not.
-/

namespace LegacySupport.Fmemopen

open CInt Pieces Runs

def Editing (ck : Cookie) : Callback → Prop
  | .write nbytes _ => ck.off ≤ ck.size ∧ 0 ≤ nbytes.toInt
  | _ => True

def acceptedCount (ck : Cookie) (nbytes : Int32) : Nat := min nbytes.toInt.toNat (ck.size - ck.off)

structure FrameKept (before after : Cookie) (data : Nat → UInt8) (count : Nat) : Prop where
  written : ∀ i, before.off ≤ i → i < before.off + count →
    after.byteAt i = data (i - before.off)
  outside : ∀ i, (i < before.off ∨ before.off + count ≤ i) → after.byteAt i ≠ before.byteAt i →
    before.bin = false ∧ i = after.len ∧ i < before.size ∧ after.byteAt i = 0
  existing : ∀ i, before.off + count ≤ i → i < before.len → after.byteAt i = before.byteAt i

def BufferKept (abi : Abi) (ck : Cookie) : Callback → Prop
  | .write nbytes data =>
      Editing ck (.write nbytes data) →
        (fmemopenWrite abi ck nbytes data).value = acceptedCount ck nbytes ∧
          FrameKept ck (fmemopenWrite abi ck nbytes data).cookie data (acceptedCount ck nbytes)
  | callback => ∀ i, (perform abi ck callback).cookie.byteAt i = ck.byteAt i

/-- The write is one of a binary stream, of no bytes or up to the end of the buffer; or its last
byte is zero, or it reaches the end of the data, or the byte behind it is zero already. -/
def TerminatorGuard (ck : Cookie) : Callback → Prop
  | .write nbytes data =>
      Editing ck (.write nbytes data) →
        ck.bin = true ∨ acceptedCount ck nbytes = 0 ∨
          ck.size ≤ ck.off + acceptedCount ck nbytes ∨
          data (acceptedCount ck nbytes - 1) = 0 ∨
          ck.len ≤ ck.off + acceptedCount ck nbytes ∨
          ck.byteAt (ck.off + acceptedCount ck nbytes) = 0
  | _ => True

/-! ## One write -/

theorem byteAt_beyond {ck : Cookie} {i : Nat} (beyond : ck.size ≤ i) : ck.byteAt i = 0 := by
  rw [Cookie.byteAt, List.getD_eq_default]
  rw [Vector.length_toList]
  exact beyond

theorem byteAt_inside (ck : Cookie) {i : Nat} (inside : i < ck.size) :
    ck.byteAt i = ck.buf[i] := by
  rw [Cookie.byteAt, List.getD_eq_getElem _ _ (by rw [Vector.length_toList]; exact inside),
    Vector.getElem_toList]

theorem byteAt_copyIn (ck : Cookie) (data : Nat → UInt8) (start count i : Nat) :
    (ck.copyIn data start count).byteAt i =
      if start ≤ i ∧ i < start + count ∧ i < ck.size then data (i - start) else ck.byteAt i := by
  by_cases inside : i < ck.size
  · rw [byteAt_inside (ck.copyIn data start count) inside, byteAt_inside ck inside]
    simp only [Cookie.copyIn, Vector.getElem_mapFinIdx, inside, and_true]
  · have beyond : ck.size ≤ i := Nat.not_lt.mp inside
    have after : (ck.copyIn data start count).byteAt i = 0 := byteAt_beyond beyond
    rw [after, byteAt_beyond beyond, if_neg fun within => inside within.2.2]

theorem byteAt_copied (ck : Cookie) (data : Nat → UInt8) {start count : Nat}
    (fits : start + count ≤ ck.size) (off i : Nat) :
    ((ck.copyIn data start count).advance off).byteAt i =
      if start ≤ i ∧ i < start + count then data (i - start) else ck.byteAt i := by
  refine (byteAt_copyIn ck data start count i).trans ?_
  by_cases inside : start ≤ i ∧ i < start + count
  · rw [if_pos inside, if_pos ⟨inside.1, inside.2, by omega⟩]
  · rw [if_neg inside, if_neg fun both => inside ⟨both.1, both.2.1⟩]

theorem clip_within {abi : Abi} {limit off : Nat} {nbytes : Int32} (ordered : off ≤ limit)
    (fits : limit < abi.sizeMod) (nonneg : 0 ≤ nbytes.toInt) :
    clip abi nbytes (abi.sizeT (limit - off)) = (min nbytes.toInt.toNat (limit - off) : Nat) := by
  have upper := nbytes.toInt_lt
  rw [sizeT_sub ordered fits]
  simp only [clip, int_eq]
  cases abi with
  | ilp32 =>
      simp only [sizeMod_ilp32, sizeT_ilp32] at fits ⊢
      split_ifs <;> omega
  | lp64 =>
      simp only [sizeMod_lp64, sizeT_lp64] at fits ⊢
      split_ifs <;> omega

theorem write_result {abi : Abi} {ck : Cookie} {nbytes : Int32} (data : Nat → UInt8)
    (offBound : ck.off ≤ ck.size) (fits : ck.size < abi.sizeMod) (nonneg : 0 ≤ nbytes.toInt) :
    let count := acceptedCount ck nbytes
    let done := fmemopenWrite abi ck nbytes data
    done.value = count ∧
      done.cookie.len = (if ck.off + count > ck.len ∧ count ≠ 0 then ck.off + count else ck.len) ∧
      done.cookie.off = ck.off + count ∧ done.cookie.bin = ck.bin ∧
      ∀ i, done.cookie.byteAt i =
        if ck.off ≤ i ∧ i < ck.off + count then data (i - ck.off)
        else if ck.bin = false ∧ count ≠ 0 ∧ ck.off + count < ck.size ∧ data (count - 1) ≠ 0 ∧
            i = ck.off + count then 0
        else ck.byteAt i := by
  have clipped : clip abi nbytes (abi.sizeT (ck.size - ck.off)) = acceptedCount ck nbytes :=
    clip_within offBound fits nonneg
  have within : ck.off + acceptedCount ck nbytes ≤ ck.size := by
    unfold acceptedCount
    omega
  dsimp only
  unfold fmemopenWrite
  rw [clipped]
  generalize acceptedCount ck nbytes = count at within ⊢
  by_cases none : (count : Int) = 0
  · have zero : count = 0 := by omega
    subst zero
    dsimp only
    rw [if_pos none]
    refine ⟨none.symm, by simp, rfl, rfl, fun i => ?_⟩
    rw [if_neg (by omega), if_neg (by simp)]
  · have positive : count ≠ 0 := by omega
    have size : abi.sizeT count = count := sizeT_of_lt (by omega)
    have next : abi.sizeT (ck.off + count) = ck.off + count := by
      rw [sizeT_add _ _ (by omega), size]
    have last : abi.sizeT (((ck.off + count : Nat) : Int) - 1) = ck.off + count - 1 :=
      sizeT_pred (by omega) (by omega)
    dsimp only
    rw [if_neg none, size, next]
    have written := byteAt_copied ck data within (ck.off + count)
    have lastByte := written (ck.off + count - 1)
    have position : ck.off + count - 1 - ck.off = count - 1 := by omega
    rw [if_pos ⟨by omega, by omega⟩, position] at lastByte
    have length : (if ck.off + count > ck.len ∧ count ≠ 0 then ck.off + count else ck.len) =
        if ck.off + count > ck.len then ck.off + count else ck.len := by
      simp only [positive, ne_eq, not_false_eq_true, and_true]
    rw [length]
    by_cases room : ck.bin = false ∧ ck.off + count < ck.size
    · have terminates : ((ck.copyIn data ck.off count).advance (ck.off + count)).bin = false ∧
          ((ck.copyIn data ck.off count).advance (ck.off + count)).off <
            ((ck.copyIn data ck.off count).advance (ck.off + count)).size := room
      rw [if_pos terminates]
      simp only [advance_off, last, lastByte]
      by_cases zero : data (count - 1) = 0
      · rw [if_neg (not_not.mpr zero)]
        refine ⟨rfl, rfl, rfl, rfl, fun i => (written i).trans ?_⟩
        simp only [zero, ne_eq, not_true_eq_false, false_and, and_false, if_false]
      · rw [if_pos zero]
        refine ⟨rfl, rfl, rfl, rfl, fun i => ?_⟩
        refine (byteAt_copyIn _ _ _ _ i).trans ?_
        rw [written i]
        by_cases inside : ck.off ≤ i ∧ i < ck.off + count
        · rw [if_pos inside, if_neg (by simp only [advance_size]; omega), if_pos inside]
        · rw [if_neg inside, if_neg inside]
          by_cases here : i = ck.off + count
          · have fits' : i < ck.size := by omega
            rw [if_pos ⟨by omega, by omega, fits'⟩, if_pos ⟨room.1, positive, room.2, zero, here⟩]
          · rw [if_neg (by omega), if_neg fun all => here all.2.2.2.2]
    · have unterminated : ¬ (((ck.copyIn data ck.off count).advance (ck.off + count)).bin = false ∧
          ((ck.copyIn data ck.off count).advance (ck.off + count)).off <
            ((ck.copyIn data ck.off count).advance (ck.off + count)).size) := room
      rw [if_neg unterminated]
      refine ⟨rfl, rfl, rfl, rfl, fun i => (written i).trans ?_⟩
      by_cases inside : ck.off ≤ i ∧ i < ck.off + count
      · rw [if_pos inside, if_pos inside]
      · rw [if_neg inside, if_neg inside, if_neg fun all => room ⟨all.1, all.2.2.1⟩]

theorem write_frameKept_iff {abi : Abi} {ck : Cookie} {nbytes : Int32} (data : Nat → UInt8)
    (fits : ck.size < abi.sizeMod) (editing : Editing ck (.write nbytes data)) :
    ((fmemopenWrite abi ck nbytes data).value = acceptedCount ck nbytes ∧
        FrameKept ck (fmemopenWrite abi ck nbytes data).cookie data (acceptedCount ck nbytes)) ↔
      (ck.bin = true ∨ acceptedCount ck nbytes = 0 ∨
        ck.size ≤ ck.off + acceptedCount ck nbytes ∨ data (acceptedCount ck nbytes - 1) = 0 ∨
        ck.len ≤ ck.off + acceptedCount ck nbytes ∨
        ck.byteAt (ck.off + acceptedCount ck nbytes) = 0) := by
  obtain ⟨offBound, nonneg⟩ := editing
  obtain ⟨value, len, off, bin, bytes⟩ := write_result data offBound fits nonneg
  generalize (fmemopenWrite abi ck nbytes data).cookie = after at len off bin bytes ⊢
  rw [and_iff_right value]
  generalize acceptedCount ck nbytes = count at len bytes ⊢
  constructor
  · intro frame
    -- the byte behind those accepted is the only one in question
    by_contra spoiled
    simp only [not_or, Bool.not_eq_true] at spoiled
    obtain ⟨text, positive, room, last, inside, byte⟩ := spoiled
    have kept := frame.existing (ck.off + count) (Nat.le_refl _) (by omega)
    rw [bytes, if_neg (by omega), if_pos ⟨text, positive, by omega, last, rfl⟩] at kept
    exact byte kept.symm
  · intro guarded
    have behind : ∀ i, (i < ck.off ∨ ck.off + count ≤ i) → after.byteAt i ≠ ck.byteAt i →
        ck.bin = false ∧ i = ck.off + count ∧ i < ck.size ∧ after.byteAt i = 0 ∧ count ≠ 0 ∧
          ck.len ≤ i := by
      intro i outside changed
      have byte := bytes i
      rw [if_neg (by omega)] at byte
      by_cases terminator : ck.bin = false ∧ count ≠ 0 ∧ ck.off + count < ck.size ∧
          data (count - 1) ≠ 0 ∧ i = ck.off + count
      · rw [if_pos terminator] at byte
        obtain ⟨text, positive, room, last, here⟩ := terminator
        refine ⟨text, here, by omega, byte, positive, ?_⟩
        rcases guarded with binary | none | full | zero | reaches | zero
        · rw [text] at binary
          cases binary
        · exact absurd none positive
        · omega
        · exact absurd zero last
        · omega
        · rw [here, zero] at changed
          rw [here] at byte
          exact absurd byte changed
      · rw [if_neg terminator] at byte
        exact absurd byte changed
    constructor
    · intro i lower upper
      rw [bytes, if_pos ⟨lower, upper⟩]
    · intro i outside changed
      obtain ⟨text, here, room, byte, positive, reaches⟩ := behind i outside changed
      refine ⟨text, ?_, room, byte⟩
      rw [len, here]
      split
      · rfl
      · omega
    · intro i after' before
      by_contra changed
      obtain ⟨-, here, -, -, -, reaches⟩ := behind i (Or.inr after') changed
      omega

theorem perform_bytes (abi : Abi) (ck : Cookie) (callback : Callback) :
    (∃ nbytes data, callback = .write nbytes data) ∨
      ∀ i, (perform abi ck callback).cookie.byteAt i = ck.byteAt i := by
  cases callback with
  | read nbytes =>
      right
      intro i
      simp only [perform, fmemopenRead]
      split <;> rfl
  | write nbytes data => exact Or.inl ⟨nbytes, data, rfl⟩
  | seek offset whence =>
      right
      intro i
      simp only [perform, fmemopenSeek]
      split_ifs <;> rfl

theorem bufferKept_iff {abi : Abi} (ck : Cookie) (callback : Callback)
    (fits : ck.size < abi.sizeMod) : BufferKept abi ck callback ↔ TerminatorGuard ck callback := by
  cases callback with
  | read nbytes =>
      rcases perform_bytes abi ck (.read nbytes) with ⟨_, _, other⟩ | same
      · cases other
      · exact iff_of_true same True.intro
  | seek offset whence =>
      rcases perform_bytes abi ck (.seek offset whence) with ⟨_, _, other⟩ | same
      · cases other
      · exact iff_of_true same True.intro
  | write nbytes data =>
      constructor
      · intro kept editing
        exact (write_frameKept_iff data fits editing).mp (kept editing)
      · intro guarded editing
        exact (write_frameKept_iff data fits editing).mpr (guarded editing)

/-! ## Runs -/

/-- What a client makes of a stream: how long the data are, where the stream stands, and the bytes
that are known. Between the end of the data and a write beyond it nothing is known. -/
structure Edited where
  length : Nat
  position : Nat
  content : Nat → Option UInt8

def Cookie.edited (ck : Cookie) : Edited where
  length := ck.len
  position := ck.off
  content i := if i < ck.len then some (ck.byteAt i) else none

/-- Bytes are accepted up to the end of the buffer, and the data reach at least to the last of
them. A read goes on by what it returns, a seek is taken as the callback makes it. -/
def Callback.edit (abi : Abi) (ck : Cookie) (edited : Edited) : Callback → Edited
  | .read nbytes =>
      { edited with
        position := abi.sizeT (edited.position + (fmemopenRead abi ck nbytes).value) }
  | .write nbytes data =>
      let count := min nbytes.toInt.toNat (ck.size - edited.position)
      { length := if count = 0 then edited.length else max edited.length (edited.position + count)
        position := edited.position + count
        content := fun i =>
          if edited.position ≤ i ∧ i < edited.position + count then
            some (data (i - edited.position))
          else edited.content i }
  | .seek offset whence =>
      { edited with position := (perform abi ck (.seek offset whence)).cookie.off }

def editedBy (abi : Abi) : Cookie → Edited → List Callback → Edited
  | _, edited, [] => edited
  | ck, edited, callback :: rest =>
      editedBy abi (perform abi ck callback).cookie (callback.edit abi ck edited) rest

structure Matches (ck : Cookie) (edited : Edited) : Prop where
  length : ck.len = edited.length
  position : ck.off = edited.position
  known : ∀ i byte, edited.content i = some byte → i < ck.len ∧ ck.byteAt i = byte

def GuardedEdit (ck : Cookie) (callback : Callback) : Prop :=
  Editing ck callback ∧ TerminatorGuard ck callback

theorem perform_len (abi : Abi) (ck : Cookie) (callback : Callback) :
    (∃ nbytes data, callback = .write nbytes data) ∨
      (perform abi ck callback).cookie.len = ck.len := by
  cases callback with
  | read nbytes =>
      right
      simp only [perform, fmemopenRead]
      split <;> rfl
  | write nbytes data => exact Or.inl ⟨nbytes, data, rfl⟩
  | seek offset whence =>
      right
      simp only [perform, fmemopenSeek]
      split_ifs <;> rfl

theorem write_len {abi : Abi} {ck : Cookie} {nbytes : Int32} (data : Nat → UInt8)
    (fits : ck.size < abi.sizeMod) (editing : Editing ck (.write nbytes data)) :
    ck.len ≤ (fmemopenWrite abi ck nbytes data).cookie.len ∧
      (ck.len ≤ ck.size → (fmemopenWrite abi ck nbytes data).cookie.len ≤ ck.size) ∧
      ∀ i, ck.off ≤ i → i < ck.off + acceptedCount ck nbytes →
        i < (fmemopenWrite abi ck nbytes data).cookie.len := by
  obtain ⟨-, len, -⟩ := write_result data editing.1 fits editing.2
  have within : ck.off + acceptedCount ck nbytes ≤ ck.size := by
    have offBound := editing.1
    unfold acceptedCount
    omega
  rw [len]
  refine ⟨?_, fun lenBound => ?_, fun i lower upper => ?_⟩
  · split <;> omega
  · split <;> omega
  · split <;> omega

theorem read_off {abi : Abi} {ck : Cookie} (offFits : ck.off < abi.sizeMod) (nbytes : Int32) :
    (fmemopenRead abi ck nbytes).cookie.off =
      abi.sizeT (ck.off + (fmemopenRead abi ck nbytes).value) := by
  unfold fmemopenRead
  dsimp only
  split
  · dsimp only
    rw [Int.add_zero, sizeT_of_lt offFits]
  · rfl

theorem perform_off_lt {abi : Abi} {ck : Cookie} {callback : Callback}
    (fits : ck.size < abi.sizeMod) (offFits : ck.off < abi.sizeMod)
    (editing : Editing ck callback) : (perform abi ck callback).cookie.off < abi.sizeMod := by
  cases callback with
  | read nbytes =>
      rw [perform, read_off offFits]
      exact sizeT_lt abi _
  | write nbytes data =>
      obtain ⟨-, -, off, -⟩ := write_result data editing.1 fits editing.2
      have offBound := editing.1
      rw [perform, off, acceptedCount]
      omega
  | seek offset whence =>
      simp only [perform, fmemopenSeek]
      split_ifs <;> first | exact sizeT_lt abi _ | exact offFits

theorem matches_edited (ck : Cookie) : Matches ck ck.edited where
  length := rfl
  position := rfl
  known i byte found := by
    simp only [Cookie.edited] at found
    split at found
    next inside => exact ⟨inside, Option.some.inj found⟩
    next => cases found

theorem Matches.moved {ck after : Cookie} {edited : Edited} (before : Matches ck edited)
    (len : after.len = ck.len) (bytes : ∀ i, after.byteAt i = ck.byteAt i) {position : Nat}
    (off : after.off = position) : Matches after { edited with position } where
  length := len.trans before.length
  position := off
  known i byte found := by
    rw [len, bytes]
    exact before.known i byte found

theorem matches_perform {abi : Abi} {ck : Cookie} {edited : Edited} {callback : Callback}
    (fits : ck.size < abi.sizeMod) (offFits : ck.off < abi.sizeMod) (before : Matches ck edited)
    (guarded : GuardedEdit ck callback) :
    Matches (perform abi ck callback).cookie (callback.edit abi ck edited) := by
  cases callback with
  | read nbytes =>
      rcases perform_len abi ck (.read nbytes) with ⟨_, _, other⟩ | len
      · cases other
      rcases perform_bytes abi ck (.read nbytes) with ⟨_, _, other⟩ | same
      · cases other
      refine before.moved len same ?_
      rw [← before.position]
      exact read_off offFits nbytes
  | seek offset whence =>
      rcases perform_len abi ck (.seek offset whence) with ⟨_, _, other⟩ | len
      · cases other
      rcases perform_bytes abi ck (.seek offset whence) with ⟨_, _, other⟩ | same
      · cases other
      exact before.moved len same rfl
  | write nbytes data =>
      obtain ⟨editing, terminated⟩ := guarded
      obtain ⟨-, frame⟩ := (write_frameKept_iff data fits editing).mpr (terminated editing)
      obtain ⟨longer, -, reaches⟩ := write_len data fits editing
      obtain ⟨-, len, off, -⟩ := write_result data editing.1 fits editing.2
      obtain ⟨_, _, content⟩ := edited
      obtain ⟨rfl, rfl, known⟩ := before
      refine ⟨len.trans ?_, off, fun i byte found => ?_⟩
      · simp only [Callback.edit, ← acceptedCount.eq_1]
        split_ifs <;> omega
      · simp only [Callback.edit, ← acceptedCount.eq_1] at found
        by_cases inside : ck.off ≤ i ∧ i < ck.off + acceptedCount ck nbytes
        · rw [if_pos inside] at found
          cases found
          exact ⟨reaches i inside.1 inside.2, frame.written i inside.1 inside.2⟩
        · rw [if_neg inside] at found
          obtain ⟨before, same⟩ := known i byte found
          refine ⟨Nat.lt_of_lt_of_le before longer, ?_⟩
          rw [← same]
          by_contra changed
          obtain ⟨-, last, -⟩ := frame.outside i (by omega) changed
          omega

theorem matches_run {abi : Abi} (callbacks : List Callback) : ∀ (ck : Cookie) (edited : Edited),
    ck.size < abi.sizeMod → ck.off < abi.sizeMod → ck.len ≤ ck.size → Matches ck edited →
    Throughout (fun ck callback => (perform abi ck callback).cookie) GuardedEdit ck callbacks →
    let final := callbacks.foldl (fun ck callback => (perform abi ck callback).cookie) ck
    final.size = ck.size ∧ final.len ≤ final.size ∧
      Matches final (editedBy abi ck edited callbacks) := by
  induction callbacks with
  | nil =>
      intro ck edited _ _ lenBound before _
      exact ⟨rfl, lenBound, before⟩
  | cons callback rest ih =>
      intro ck edited fits offFits lenBound before guarded
      have size := perform_size abi ck callback
      have bounded : (perform abi ck callback).cookie.len ≤ (perform abi ck callback).cookie.size := by
        rw [size]
        rcases perform_len abi ck callback with ⟨nbytes, data, rfl⟩ | len
        · exact (write_len data fits guarded.1.1).2.1 lenBound
        · rw [len]
          exact lenBound
      obtain ⟨same, last, final⟩ := ih (perform abi ck callback).cookie
        (callback.edit abi ck edited) (by rw [size]; exact fits)
        (perform_off_lt fits offFits guarded.1.1) bounded
        (matches_perform fits offFits before guarded.1) guarded.2
      exact ⟨same.trans size, last, final⟩

/-! ### Reading back -/

def deliveredBytes (ck : Cookie) (done : Done) : List UInt8 :=
  done.delivered.flatMap fun region =>
    (List.range region.count).map fun i => ck.byteAt (region.start + i)

def readAll (abi : Abi) : Cookie → List Int32 → List UInt8
  | _, [] => []
  | ck, nbytes :: rest =>
      deliveredBytes ck (fmemopenRead abi ck nbytes) ++
        readAll abi (fmemopenRead abi ck nbytes).cookie rest

structure ReadsBack (abi : Abi) (ck : Cookie) (edited : Edited) : Prop where
  bounded : edited.length ≤ ck.size
  inside : ∀ i byte, edited.content i = some byte → i < edited.length
  delivers : ∀ counts : List Int32, (∀ count ∈ counts, 0 ≤ count.toInt) →
    (readAll abi (perform abi ck (.seek 0 seekSet)).cookie counts).length =
        min (counts.map fun count => count.toInt.toNat).sum edited.length ∧
      ∀ i byte, i < (counts.map fun count => count.toInt.toNat).sum →
        edited.content i = some byte →
        (readAll abi (perform abi ck (.seek 0 seekSet)).cookie counts)[i]? = some byte

def Cookie.data (ck : Cookie) : List UInt8 := ck.buf.toList.take ck.len

theorem length_data {ck : Cookie} (lenBound : ck.len ≤ ck.size) : ck.data.length = ck.len := by
  rw [Cookie.data, List.length_take, Vector.length_toList]
  omega

theorem getElem?_data {ck : Cookie} (lenBound : ck.len ≤ ck.size) {i : Nat} (inside : i < ck.len) :
    ck.data[i]? = some (ck.byteAt i) := by
  have room : i < ck.buf.toList.length := by
    rw [Vector.length_toList]
    omega
  rw [Cookie.data, List.getElem?_take_of_lt inside, Cookie.byteAt, List.getD_eq_getElem _ _ room,
    List.getElem?_eq_getElem room]

theorem fmemopenRead_piece {abi : Abi} {ck : Cookie} {nbytes : Int32} (fits : ck.size < abi.sizeMod)
    (lenBound : ck.len ≤ ck.size) (within : ck.off ≤ ck.len) (nonneg : 0 ≤ nbytes.toInt) :
    deliveredBytes ck (fmemopenRead abi ck nbytes) = piece ck.data ck.off nbytes.toInt.toNat ∧
      (fmemopenRead abi ck nbytes).cookie =
        { ck with off := ck.off + (piece ck.data ck.off nbytes.toInt.toNat).length } := by
  have clipped : clip abi nbytes (abi.sizeT (ck.len - ck.off)) =
      (min nbytes.toInt.toNat (ck.len - ck.off) : Nat) := clip_within within (by omega) nonneg
  rw [length_piece, ← piece_clipped, length_data lenBound]
  unfold fmemopenRead
  rw [clipped]
  have bounded : ck.off + min nbytes.toInt.toNat (ck.len - ck.off) ≤ ck.len := by omega
  generalize min nbytes.toInt.toNat (ck.len - ck.off) = count at bounded ⊢
  have counted : abi.sizeT count = count := sizeT_of_lt (by omega)
  have next : abi.sizeT (ck.off + count) = ck.off + count := by
    rw [sizeT_add _ _ (by omega), counted]
  dsimp only
  by_cases none : (count : Int) = 0
  · have zero : count = 0 := by omega
    subst zero
    rw [if_pos none]
    exact ⟨by rw [piece, List.take_zero]; rfl, rfl⟩
  · rw [if_neg none, counted, next]
    refine ⟨?_, rfl⟩
    change [_].flatMap _ = _
    rw [List.flatMap_singleton]
    apply List.ext_getElem?
    intro i
    by_cases inside : i < count
    · rw [getElem?_piece _ inside, getElem?_data lenBound (by omega), List.getElem?_map,
        List.getElem?_range inside]
      rfl
    · rw [List.getElem?_eq_none, List.getElem?_eq_none]
      · rw [length_piece]
        omega
      · rw [List.length_map, List.length_range]
        exact Nat.not_lt.mp inside

theorem readAll_eq {abi : Abi} (counts : List Int32) : ∀ ck : Cookie, ck.size < abi.sizeMod →
    ck.len ≤ ck.size → ck.off ≤ ck.len → (∀ count ∈ counts, 0 ≤ count.toInt) →
    readAll abi ck counts = pieces ck.data ck.off (counts.map fun count => count.toInt.toNat) := by
  induction counts with
  | nil =>
      intro ck _ _ _ _
      rfl
  | cons count rest ih =>
      intro ck fits lenBound within nonneg
      obtain ⟨delivered, moved⟩ :=
        fmemopenRead_piece fits lenBound within (nonneg count List.mem_cons_self)
      have bounded := length_piece ck.data ck.off count.toInt.toNat
      rw [length_data lenBound] at bounded
      have following := ih
        { ck with off := ck.off + (piece ck.data ck.off count.toInt.toNat).length } fits lenBound
        (by simp only; omega) fun other member => nonneg other (List.mem_cons_of_mem _ member)
      rw [readAll, delivered, moved, following]
      rfl

theorem rewind_cookie (abi : Abi) (ck : Cookie) :
    (perform abi ck (.seek 0 seekSet)).cookie = { ck with off := 0 } := by
  have accepted : exceeds abi (0 : Int64).toInt ck.size = false := by
    cases abi with
    | ilp32 =>
        rw [exceeds_ilp32]
        exact Int.natCast_nonneg _
    | lp64 =>
        rw [exceeds_lp64]
        exact Int.natCast_nonneg _
  have start : abi.sizeT (0 : Int64).toInt = 0 := by cases abi <;> rfl
  simp only [perform, fmemopenSeek, if_true, accepted, start, Bool.false_eq_true, if_false]

theorem readsBack_of_matches {abi : Abi} {ck : Cookie} {edited : Edited}
    (fits : ck.size < abi.sizeMod) (lenBound : ck.len ≤ ck.size) (before : Matches ck edited) :
    ReadsBack abi ck edited := by
  obtain ⟨length, -, known⟩ := before
  rw [length] at known
  refine ⟨length ▸ lenBound, fun i byte found => (known i byte found).1, fun counts nonneg => ?_⟩
  rw [rewind_cookie, readAll_eq counts { ck with off := 0 } fits lenBound (Nat.zero_le _) nonneg,
    pieces_eq]
  have same : ({ ck with off := 0 } : Cookie).data = ck.data := rfl
  rw [same]
  constructor
  · rw [length_piece, length_data lenBound, length, Nat.sub_zero]
  · intro i byte inside found
    obtain ⟨within, held⟩ := known i byte found
    dsimp only
    rw [getElem?_piece _ inside, Nat.zero_add, getElem?_data lenBound (length ▸ within), held]

/-- Every run keeps to its frame exactly while its writes meet the guard, and reading back after
such a run delivers the data as edited. -/
theorem fmemopen_edits_iff {abi : Abi} {parser : ModeParser} {args : OpenArgs abi}
    {env : OpenEnv args.size} {stream : Stream}
    (opened : fmemopen parser args env = .ok stream) (callbacks : List Callback) :
    let step := fun ck callback => (perform abi ck callback).cookie
    (Throughout step (BufferKept abi) stream.cookie callbacks ↔
        Throughout step TerminatorGuard stream.cookie callbacks) ∧
      (Throughout step GuardedEdit stream.cookie callbacks →
        ReadsBack abi (callbacks.foldl step stream.cookie)
          (editedBy abi stream.cookie stream.cookie.edited callbacks)) := by
  have initial := fmemopen_inBounds opened
  constructor
  · have preserved : ∀ ck callback, ck.size < abi.sizeMod → TerminatorGuard ck callback →
        (perform abi ck callback).cookie.size < abi.sizeMod := by
      intro ck callback fits _
      rw [perform_size]
      exact fits
    exact throughout_iff preserved bufferKept_iff initial.fits callbacks
  · intro guarded
    obtain ⟨same, lenBound, final⟩ := matches_run callbacks stream.cookie _ initial.fits
      (Nat.lt_of_le_of_lt initial.offBound initial.fits) initial.lenBound
      (matches_edited stream.cookie) guarded
    exact readsBack_of_matches (by rw [same]; exact initial.fits) lenBound final

def replacing : List Callback :=
  [.write 2 fun i => [97, 98].getD i 0, .seek 0 seekSet, .write 2 fun i => [99, 100].getD i 0]

theorem fmemopen_edits_replacing :
    (editedBy .lp64 updateStream.cookie updateStream.cookie.edited replacing).length = 2 ∧
      ReadsBack .lp64
        (replacing.foldl (fun ck callback => (perform .lp64 ck callback).cookie)
          updateStream.cookie)
        (editedBy .lp64 updateStream.cookie updateStream.cookie.edited replacing) := by
  have edits := @fmemopen_edits_iff .lp64 fopenModes updateArgs (grantedEnv 8) updateStream rfl
    replacing
  refine ⟨by decide, edits.2 ?_⟩
  refine ⟨⟨⟨by decide, by decide⟩, fun _ => ?_⟩, ⟨True.intro, True.intro⟩,
    ⟨⟨by decide, by decide⟩, fun _ => ?_⟩, True.intro⟩
  · exact Or.inr (Or.inr (Or.inr (Or.inr (Or.inl (by decide)))))
  · exact Or.inr (Or.inr (Or.inr (Or.inr (Or.inl (by decide)))))

theorem fmemopen_spoils_following :
    ¬ ∀ (abi : Abi) (parser : ModeParser) (args : OpenArgs abi) (env : OpenEnv args.size)
        (stream : Stream), fmemopen parser args env = .ok stream →
      ∀ callbacks : List Callback,
        Throughout (fun ck callback => (perform abi ck callback).cookie) (BufferKept abi)
          stream.cookie callbacks := by
  intro always
  have run := always .lp64 fopenModes updateArgs (grantedEnv 8) updateStream rfl
    [.write 3 fun i => [97, 98, 99].getD i 0, .seek 0 seekSet, .write 1 fun _ => 88]
  obtain ⟨-, -, kept, -⟩ := run
  have frame := (kept ⟨by decide, by decide⟩).2.existing 1 (by decide) (by decide)
  exact absurd frame (by decide)

end LegacySupport.Fmemopen
