import LegacySupport.MemstreamCore
import LegacySupport.Runs

/-!
A memory stream is a byte array with a cursor that grows by zeros. Its buffer holds the array
and is zero behind it, so moving the cursor past the end needs no filling.
-/

namespace LegacySupport.OpenMemstream

open CInt Runs

/-- What a memory stream stands for. -/
structure GrowingArray where
  data : List UInt8
  cursor : Nat
  inside : cursor ≤ data.length

namespace GrowingArray

def empty : GrowingArray := ⟨[], 0, Nat.le_refl 0⟩

def write (array : GrowingArray) (bytes : List UInt8) : GrowingArray where
  data := array.data.take array.cursor ++ bytes ++ array.data.drop (array.cursor + bytes.length)
  cursor := array.cursor + bytes.length
  inside := by
    have inside := array.inside
    simp only [List.length_append, List.length_take, List.length_drop]
    omega

def seek (array : GrowingArray) (target : Nat) : GrowingArray where
  data := array.data ++ List.replicate (target - array.data.length) 0
  cursor := target
  inside := by
    simp only [List.length_append, List.length_replicate]
    omega

end GrowingArray

/-! ## Operations -/

inductive Op
  | write (buf : List UInt8) (grant : Option Grant)
  | seek (offset : Int64) (whence : Int32) (grant : Option Grant)

def perform (abi : Abi) (ms : Memstream) : Op → Except Fault (Int × Memstream)
  | .write buf grant => memstreamWrite abi ms buf grant
  | .seek offset whence grant => memstreamSeek abi ms offset whence grant

def performAll (abi : Abi) (ms : Memstream) : List Op → Except Fault (List Int × Memstream)
  | [] => .ok ([], ms)
  | op :: ops =>
      (perform abi ms op).bind fun (value, ms) =>
        (performAll abi ms ops).map fun (values, ms) => (value :: values, ms)

def Op.Granted : Op → Prop
  | .write _ grant => grant.isSome
  | .seek _ _ grant => grant.isSome

namespace GrowingArray

def target (array : GrowingArray) (offset : Int64) (whence : Int32) : Option Int :=
  if whence = seekSet then some offset.toInt
  else if whence = seekCur then some (array.cursor + offset.toInt)
  else if whence = seekEnd then some (array.data.length + offset.toInt)
  else none

def resulting (array : GrowingArray) : Op → Int
  | .write buf _ => array.cursor + buf.length
  | .seek offset whence _ => (array.target offset whence).getD array.cursor

def apply (array : GrowingArray) : Op → GrowingArray
  | .write buf _ => array.write buf
  | .seek offset whence _ =>
      match array.target offset whence with
      | some target => array.seek target.toNat
      | none => array

def value (array : GrowingArray) : Op → Int
  | .write buf _ => buf.length
  | .seek offset whence _ => (array.target offset whence).getD (-1)

def values (array : GrowingArray) : List Op → List Int
  | [] => []
  | op :: ops => array.value op :: (array.apply op).values ops

/-- Allocations succeed, and the resulting position is one that a stream supports. -/
def Allowed (array : GrowingArray) (op : Op) : Prop :=
  op.Granted ∧ 0 ≤ array.resulting op ∧ array.resulting op < 2 ^ 30

end GrowingArray

/-- The stream holds the array: the buffer is zero behind the data, and the caller sees the
buffer and the size. -/
structure Refines (ms : Memstream) (array : GrowingArray) : Prop where
  position : ms.position = array.cursor
  size : ms.size = array.data.length
  room : ms.size < ms.capacity
  contents : ∃ address, ms.ptr = some address ∧ ms.contents = some ⟨address,
    array.data ++ List.replicate (ms.capacity.toNat - array.data.length) 0⟩
  sizeloc : ms.sizeloc = array.data.length

theorem refines_openMemstream (address : Nat) : Refines (openMemstream address) .empty where
  position := rfl
  size := rfl
  room := by
    change (0 : Int) < 4096
    omega
  contents := ⟨address, rfl, rfl⟩
  sizeloc := rfl

theorem int_eq_self {value : Int} (lower : -2147483648 ≤ value) (upper : value < 2147483648) :
    int value = value := by
  rw [int_eq]
  omega

/-! ## Growing -/

theorem growCapacity_spec {minsize : Int} (small : minsize < 2 ^ 30) (rounds : Nat) :
    ∀ newcap : Int, 0 < newcap → newcap ≤ 2 * minsize → minsize < newcap * 2 ^ rounds →
      ∃ grown, growCapacity (rounds + 1) newcap minsize = some grown ∧
        minsize < grown ∧ newcap ≤ grown ∧ grown ≤ 2 * minsize := by
  induction rounds with
  | zero =>
      intro newcap positive bounded enough
      have stops : ¬ newcap ≤ minsize := by omega
      exact ⟨newcap, by rw [growCapacity, if_neg stops], by omega, by omega, bounded⟩
  | succ rounds ih =>
      intro newcap positive bounded enough
      by_cases stops : newcap ≤ minsize
      · have doubled : int (newcap * 2) = newcap * 2 := int_eq_self (by omega) (by omega)
        have power : newcap * 2 ^ (rounds + 1) = newcap * 2 * 2 ^ rounds := by ring
        obtain ⟨grown, result, larger, above, below⟩ :=
          ih (newcap * 2) (by omega) (by omega) (by omega)
        refine ⟨grown, ?_, larger, by omega, below⟩
        rw [growCapacity, if_pos stops, doubled]
        exact result
      · exact ⟨newcap, by rw [growCapacity, if_neg stops], by omega, by omega, bounded⟩

theorem store_inside (contents : Contents) {start : Nat} {data : List UInt8}
    (fits : start + data.length ≤ contents.bytes.length) :
    contents.store start data = .ok { contents with
      bytes := contents.bytes.take start ++ data ++ contents.bytes.drop (start + data.length) } := by
  unfold Contents.store
  split
  next empty =>
    subst empty
    simp
  next =>
    rw [if_pos (by omega), Int.toNat_natCast]

theorem realloc_cleared (data : List UInt8) (address : Nat) (grant : Grant) {capacity newcap : Nat}
    (held : data.length ≤ capacity) (grows : capacity ≤ newcap) :
    (Contents.realloc ⟨address, data ++ List.replicate (capacity - data.length) 0⟩ grant
        newcap).store capacity (List.replicate (newcap - capacity) 0) =
      .ok ⟨grant.address, data ++ List.replicate (newcap - data.length) 0⟩ := by
  generalize padded : data ++ List.replicate (capacity - data.length) 0 = bytes
  have full : bytes.length = capacity := by
    rw [← padded, List.length_append, List.length_replicate]
    omega
  have moved : (Contents.realloc ⟨address, bytes⟩ grant newcap).bytes =
      bytes ++ (List.range (newcap - capacity)).map fun i => grant.stale (capacity + i) := by
    simp only [Contents.realloc, full]
    rw [List.take_of_length_le]
    simp only [List.length_append, List.length_map, List.length_range]
    omega
  rw [store_inside _ (by simp [moved, full]), moved]
  have zeros : capacity - data.length + (newcap - capacity) = newcap - data.length := by omega
  simp only [List.length_replicate, List.take_left' full, List.drop_append, full, Except.ok.injEq]
  rw [List.drop_of_length_le (by omega), List.drop_of_length_le (by simp)]
  rw [← padded, List.append_assoc, List.append_nil, List.append_nil, List.append_assoc,
    List.replicate_append_replicate, zeros]
  rfl

theorem Refines.present {ms : Memstream} {array : GrowingArray} (refines : Refines ms array) :
    ms.contents.isNone = false := by
  obtain ⟨address, _, contents⟩ := refines.contents
  rw [contents]
  rfl

theorem memstreamGrow_refines {ms : Memstream} {array : GrowingArray} (refines : Refines ms array)
    {minsize : Int} (needed : ms.capacity ≤ minsize) (small : minsize < 2 ^ 30)
    (grant : Grant) :
    ∃ grown, memstreamGrow ms minsize (some grant) = .ok (0, grown) ∧
      Refines grown array ∧ minsize < grown.capacity := by
  obtain ⟨position, size, room, ⟨address, ptr, contents⟩, sizeloc⟩ := refines
  have doubled : int (ms.capacity * 2) = ms.capacity * 2 := int_eq_self (by omega) (by omega)
  obtain ⟨newcap, loop, larger, above, below⟩ :=
    growCapacity_spec small 63 (ms.capacity * 2) (by omega) (by omega) (by omega)
  have added : int (newcap - ms.capacity) = newcap - ms.capacity :=
    int_eq_self (by omega) (by omega)
  have cleared := realloc_cleared array.data address grant
    (show array.data.length ≤ ms.capacity.toNat by omega)
    (show ms.capacity.toNat ≤ newcap.toNat by omega)
  rw [Int.toNat_of_nonneg (by omega)] at cleared
  have count : (newcap - ms.capacity).toNat = newcap.toNat - ms.capacity.toNat := by omega
  refine ⟨{ ms with
      contents := some ⟨grant.address,
        array.data ++ List.replicate (newcap.toNat - array.data.length) 0⟩
      capacity := newcap
      ptr := some grant.address }, ?_, ?_, larger⟩
  · have nonneg : ¬ newcap - ms.capacity < 0 := by omega
    simp only [memstreamGrow, contents, doubled, growRounds, loop, added, nonneg, if_false, count,
      cleared]
    rfl
  · exact ⟨position, size, by simp only; omega, ⟨grant.address, rfl, rfl⟩, sizeloc⟩

/-! ## Writing and seeking -/

theorem Refines.check {ms : Memstream} {array : GrowingArray} (refines : Refines ms array) :
    ms.check = .ok () := by
  obtain ⟨position, size, room, ⟨address, ptr, contents⟩, sizeloc⟩ := refines
  have last : (array.data ++ List.replicate (ms.capacity.toNat - array.data.length)
      (0 : UInt8))[array.data.length]? = some 0 := by
    rw [List.getElem?_append_right (Nat.le_refl _), Nat.sub_self]
    exact List.getElem?_replicate_of_lt (by omega)
  rw [size] at room
  simp only [Memstream.check, contents, Contents.load, size, room, Int.natCast_nonneg,
    if_true, Int.toNat_natCast, last, Except.bind]

theorem extend_refines (abi : Abi) {ms : Memstream} {array : GrowingArray} {before : Nat}
    (position : ms.position = array.cursor) (size : ms.size = before)
    (longer : array.data.length = max before array.cursor)
    (room : ms.position < ms.capacity ∧ ms.size < ms.capacity)
    (contents : ∃ address, ms.ptr = some address ∧ ms.contents = some ⟨address,
      array.data ++ List.replicate (ms.capacity.toNat - array.data.length) 0⟩)
    (sizeloc : ms.sizeloc = before) (small : array.cursor < 2 ^ 30) :
    Refines (ms.extend abi) array := by
  unfold Memstream.extend
  split
  next shorter =>
    have length : array.data.length = array.cursor := by omega
    have fits : abi.sizeT array.cursor = array.cursor :=
      sizeT_of_lt (by cases abi <;> simp <;> omega)
    refine ⟨position, ?_, room.1, contents, ?_⟩
    · simp only [position, length]
    · simp only [position, length, fits]
  next enough =>
    have length : array.data.length = before := by omega
    exact ⟨position, by rw [size, length], room.2, contents, by rw [sizeloc, length]⟩

theorem grown_refines {ms : Memstream} {array : GrowingArray} (refines : Refines ms array)
    (target : Int) (small : target < 2 ^ 30) (grant : Grant) :
    ∃ grown,
      (if ms.capacity ≤ target then memstreamGrow ms target (some grant) else .ok (0, ms)) =
        .ok (0, grown) ∧ Refines grown array ∧ target < grown.capacity := by
  split
  next needed => exact memstreamGrow_refines refines needed small grant
  next enough => exact ⟨ms, rfl, refines, by omega⟩

theorem store_padded {array : GrowingArray} {buf : List UInt8} {capacity : Nat} (address : Nat)
    (room : array.data.length < capacity) (fits : array.cursor + buf.length < capacity) :
    Contents.store ⟨address, array.data ++ List.replicate (capacity - array.data.length) 0⟩
        array.cursor buf =
      .ok ⟨address, (array.write buf).data ++
        List.replicate (capacity - (array.write buf).data.length) 0⟩ := by
  have inside := array.inside
  rw [store_inside _ (by simp only [List.length_append, List.length_replicate]; omega)]
  have rest : capacity - (array.write buf).data.length =
      capacity - array.data.length - (array.cursor + buf.length - array.data.length) := by
    simp only [GrowingArray.write, List.length_append, List.length_take, List.length_drop]
    omega
  rw [rest, List.take_append_of_le_length inside, List.drop_append, List.drop_replicate]
  simp only [GrowingArray.write, List.append_assoc]

theorem memstreamWrite_refines (abi : Abi) {ms : Memstream} {array : GrowingArray}
    (refines : Refines ms array) (buf : List UInt8) (grant : Grant)
    (small : array.cursor + buf.length < 2 ^ 30) :
    ∃ written, memstreamWrite abi ms buf (some grant) = .ok (buf.length, written) ∧
      Refines written (array.write buf) := by
  have position := refines.position
  have target : int (ms.position + buf.length) = array.cursor + buf.length := by
    rw [position]
    exact int_eq_self (by omega) (by omega)
  obtain ⟨grown, result, kept, room⟩ :=
    grown_refines refines (array.cursor + buf.length) (by omega) grant
  obtain ⟨grownPosition, size, larger, ⟨address, ptr, contents⟩, sizeloc⟩ := kept
  have capacity : ((grown.capacity.toNat : Nat) : Int) = grown.capacity :=
    Int.toNat_of_nonneg (by omega)
  have stored := @store_padded array buf grown.capacity.toNat address (by omega) (by omega)
  have inside := array.inside
  have length : (array.write buf).data.length = max array.data.length (array.write buf).cursor := by
    simp only [GrowingArray.write, List.length_append, List.length_take, List.length_drop]
    omega
  have written : Refines (Memstream.extend abi { grown with
      contents := some ⟨address, (array.write buf).data ++
        List.replicate (grown.capacity.toNat - (array.write buf).data.length) 0⟩
      position := array.cursor + buf.length }) (array.write buf) :=
    extend_refines abi rfl size length ⟨room, larger⟩ ⟨address, ptr, rfl⟩ sizeloc small
  refine ⟨_, ?_, written⟩
  have moved : int (grown.position + buf.length) = array.cursor + buf.length := by
    rw [grownPosition]
    exact int_eq_self (by omega) (by omega)
  have checked := written.check
  simp only [memstreamWrite, refines.present, Bool.false_eq_true, if_false, target, result,
    Except.bind, Int.lt_irrefl, contents, moved]
  simp only [grownPosition, stored, checked]
  rfl

theorem target_eq {ms : Memstream} {array : GrowingArray} (refines : Refines ms array)
    {offset : Int64} {whence : Int32} {target : Int}
    (asked : array.target offset whence = some target) (nonneg : 0 ≤ target)
    (small : target < 2 ^ 30) : ms.target offset whence = some target := by
  have noWrap : int64 target = target := by
    rw [int64_eq]
    omega
  unfold GrowingArray.target at asked
  unfold Memstream.target
  rw [refines.position, refines.size]
  split at asked
  next start => rw [if_pos start, asked]
  next other =>
    rw [if_neg other]
    split at asked
    next start =>
      rw [if_pos start, Option.some.inj asked, noWrap]
    next another =>
      rw [if_neg another]
      split at asked
      next start => rw [if_pos start, Option.some.inj asked, noWrap]
      next => cases asked

theorem target_none {ms : Memstream} {array : GrowingArray} {offset : Int64} {whence : Int32}
    (invalid : array.target offset whence = none) : ms.target offset whence = none := by
  unfold GrowingArray.target at invalid
  unfold Memstream.target
  split at invalid
  next => cases invalid
  next other =>
    rw [if_neg other]
    split at invalid
    next => cases invalid
    next another =>
      rw [if_neg another]
      split at invalid
      next => cases invalid
      next last => rw [if_neg last]

theorem memstreamSeek_refines (abi : Abi) {ms : Memstream} {array : GrowingArray}
    (refines : Refines ms array) {offset : Int64} {whence : Int32} {target : Int}
    (asked : array.target offset whence = some target) (nonneg : 0 ≤ target)
    (small : target < 2 ^ 30) (grant : Grant) :
    ∃ moved, memstreamSeek abi ms offset whence (some grant) = .ok (target, moved) ∧
      Refines moved (array.seek target.toNat) := by
  have pos := target_eq refines asked nonneg small
  have exact_pos : int target = target := int_eq_self (by omega) (by omega)
  obtain ⟨grown, result, kept, room⟩ := grown_refines refines target small grant
  obtain ⟨grownPosition, size, larger, ⟨address, ptr, contents⟩, sizeloc⟩ := kept
  have zeros : array.data ++ List.replicate (grown.capacity.toNat - array.data.length) 0 =
      (array.seek target.toNat).data ++
        List.replicate (grown.capacity.toNat - (array.seek target.toNat).data.length) 0 := by
    simp only [GrowingArray.seek, List.append_assoc, List.append_cancel_left_eq,
      List.replicate_append_replicate, List.length_append, List.length_replicate]
    congr 1
    omega
  have length : (array.seek target.toNat).data.length =
      max array.data.length (array.seek target.toNat).cursor := by
    simp only [GrowingArray.seek, List.length_append, List.length_replicate]
    omega
  have moved : Refines (Memstream.extend abi { grown with position := target })
      (array.seek target.toNat) := by
    refine extend_refines abi ?_ size length ⟨room, larger⟩ ⟨address, ptr, ?_⟩ sizeloc ?_
    · simp only [GrowingArray.seek]
      omega
    · rw [← zeros]
      exact contents
    · simp only [GrowingArray.seek]
      omega
  refine ⟨_, ?_, moved⟩
  simp only [memstreamSeek, refines.present, Bool.false_eq_true, if_false, pos, exact_pos, result,
    Except.bind, moved.check]
  rfl

/-! ## Runs -/

theorem perform_refines (abi : Abi) {ms : Memstream} {array : GrowingArray}
    (refines : Refines ms array) {op : Op} (allowed : array.Allowed op) :
    ∃ after, perform abi ms op = .ok (array.value op, after) ∧ Refines after (array.apply op) := by
  obtain ⟨granted, nonneg, small⟩ := allowed
  cases op with
  | write buf grant =>
      obtain ⟨grant, rfl⟩ := Option.isSome_iff_exists.mp granted
      simp only [GrowingArray.resulting] at small
      exact memstreamWrite_refines abi refines buf grant (by omega)
  | seek offset whence grant =>
      obtain ⟨grant, rfl⟩ := Option.isSome_iff_exists.mp granted
      cases asked : array.target offset whence with
      | none =>
          obtain ⟨address, _, contents⟩ := refines.contents
          refine ⟨ms, ?_, ?_⟩
          · simp [perform, memstreamSeek, contents, target_none asked, GrowingArray.value, asked]
          · simp only [GrowingArray.apply, asked]
            exact refines
      | some target =>
          simp only [GrowingArray.resulting, asked, Option.getD_some] at nonneg small
          simp only [GrowingArray.value, GrowingArray.apply, asked, Option.getD_some]
          exact memstreamSeek_refines abi refines asked nonneg small grant

theorem performAll_refines (abi : Abi) (ops : List Op) :
    ∀ (ms : Memstream) (array : GrowingArray), Refines ms array →
      Throughout GrowingArray.apply GrowingArray.Allowed array ops →
      ∃ after, performAll abi ms ops = .ok (array.values ops, after) ∧
        Refines after (ops.foldl GrowingArray.apply array) := by
  induction ops with
  | nil =>
      intro ms array refines _
      exact ⟨ms, rfl, refines⟩
  | cons op ops ih =>
      intro ms array refines allowed
      obtain ⟨middle, performed, kept⟩ := perform_refines abi refines allowed.1
      obtain ⟨after, rest, final⟩ := ih middle (array.apply op) kept allowed.2
      refine ⟨after, ?_, final⟩
      simp only [performAll, performed, Except.bind, rest, Except.map, GrowingArray.values]

structure ClosedAs (closed : Closed) (array : GrowingArray) : Prop where
  value : closed.value = 0
  sizeloc : closed.sizeloc = min array.data.length array.cursor
  contents : ∃ contents, closed.contents = some contents ∧ closed.ptr = some contents.address ∧
    contents.bytes.take closed.sizeloc = array.data.take closed.sizeloc ∧
    contents.bytes[closed.sizeloc]? = some 0

theorem memstreamClose_refines (abi : Abi) {ms : Memstream} {array : GrowingArray}
    (refines : Refines ms array) (small : array.cursor < 2 ^ 30) :
    ∃ closed, memstreamClose abi ms = .ok closed ∧ ClosedAs closed array := by
  obtain ⟨position, size, room, ⟨address, ptr, contents⟩, sizeloc⟩ := refines
  have inside := array.inside
  have least : min ms.size ms.position = array.cursor := by omega
  have fits : abi.sizeT array.cursor = array.cursor :=
    sizeT_of_lt (by cases abi <;> simp <;> omega)
  generalize held : array.data ++
    List.replicate (ms.capacity.toNat - array.data.length) (0 : UInt8) = bytes at contents
  have full : array.cursor + [(0 : UInt8)].length ≤ bytes.length := by
    rw [← held, List.length_append, List.length_replicate, List.length_singleton]
    omega
  have before : (bytes.take array.cursor).length = array.cursor := by
    rw [List.length_take]
    omega
  have below : (array.cursor : Int) < ms.capacity := by omega
  refine ⟨⟨0, some ⟨address, bytes.take array.cursor ++ [0] ++ bytes.drop (array.cursor + 1)⟩,
    some address, array.cursor⟩, ?_, ?_⟩
  · simp only [memstreamClose, contents, least, if_pos below,
      store_inside ⟨address, bytes⟩ full, Except.map, fits]
    rfl
  · refine ⟨rfl, (Nat.min_eq_right inside).symm, _, rfl, rfl, ?_, ?_⟩
    · simp only [List.append_assoc]
      rw [List.take_append_of_le_length (by omega), List.take_take, Nat.min_self, ← held,
        List.take_append_of_le_length inside]
    · simp only [List.append_assoc]
      rw [List.getElem?_append_right (by omega), before, Nat.sub_self]
      rfl

theorem cursor_small (array : GrowingArray) (op : Op) (small : array.cursor < 2 ^ 30)
    (allowed : array.Allowed op) : (array.apply op).cursor < 2 ^ 30 := by
  obtain ⟨_, nonneg, bounded⟩ := allowed
  cases op with
  | write buf grant =>
      simp only [GrowingArray.resulting] at bounded
      simp only [GrowingArray.apply, GrowingArray.write]
      omega
  | seek offset whence grant =>
      simp only [GrowingArray.resulting] at nonneg bounded
      simp only [GrowingArray.apply]
      split
      next target asked =>
        simp only [asked, Option.getD_some] at nonneg bounded
        simp only [GrowingArray.seek]
        omega
      next => exact small

/-- Every run of writes and seeks from an opened stream returns what the array would, ends in a
stream that holds the array, and leaves the caller a terminated buffer when it is closed. -/
theorem memstream_refines (abi : Abi) (address : Nat) (ops : List Op)
    (allowed : Throughout GrowingArray.apply GrowingArray.Allowed .empty ops) :
    ∃ ms, performAll abi (openMemstream address) ops = .ok (GrowingArray.empty.values ops, ms) ∧
      Refines ms (ops.foldl GrowingArray.apply .empty) ∧
      ∃ closed, memstreamClose abi ms = .ok closed ∧
        ClosedAs closed (ops.foldl GrowingArray.apply .empty) := by
  obtain ⟨ms, performed, refines⟩ :=
    performAll_refines abi ops _ _ (refines_openMemstream address) allowed
  have small : (ops.foldl GrowingArray.apply .empty).cursor < 2 ^ 30 :=
    Throughout.keeps cursor_small (by decide) allowed
  exact ⟨ms, performed, refines, memstreamClose_refines abi refines small⟩

def seekingOps : List Op :=
  [.write [1, 2, 3] (some ⟨8192, fun _ => 7⟩), .seek 5000 seekSet (some ⟨16384, fun _ => 7⟩),
    .seek (-4999) seekCur (some ⟨16384, fun _ => 7⟩), .write [9] (some ⟨16384, fun _ => 7⟩)]

theorem memstream_refines_seeking :
    ∃ ms, performAll .lp64 (openMemstream 4096) seekingOps =
        .ok (GrowingArray.empty.values seekingOps, ms) ∧
      Refines ms (seekingOps.foldl GrowingArray.apply .empty) ∧
      ∃ closed, memstreamClose .lp64 ms = .ok closed ∧
        ClosedAs closed (seekingOps.foldl GrowingArray.apply .empty) := by
  apply memstream_refines
  refine ⟨⟨rfl, ?_, ?_⟩, ⟨rfl, ?_, ?_⟩, ⟨rfl, ?_, ?_⟩, ⟨rfl, ?_, ?_⟩, True.intro⟩ <;> decide

end LegacySupport.OpenMemstream
