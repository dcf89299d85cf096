import LegacySupport.Memstream
import LegacySupport.Pieces

/-!
Reading a memory stream back. Whatever was written and sought before, a read copies from the
start of the contents, while the position moves on.
-/

namespace LegacySupport.OpenMemstream

open CInt Pieces Runs

structure Sound (ms : Memstream) (contents : Contents) : Prop where
  position : -2147483648 ≤ ms.position ∧ ms.position ≤ ms.size
  size : 0 ≤ ms.size ∧ ms.size < ms.capacity
  capacity : ms.capacity < 2147483648
  length : contents.bytes.length = ms.capacity

def Kept (ms : Memstream) : Prop := ∀ contents, ms.contents = some contents → Sound ms contents

theorem int_range (value : Int) : -2147483648 ≤ int value ∧ int value < 2147483648 := by
  rw [int_eq]
  omega

theorem bind_ok {α β : Type} {result : Except Fault α} {next : α → Except Fault β} {value : β}
    (bound : result.bind next = .ok value) : ∃ first, result = .ok first ∧ next first = .ok value := by
  cases result with
  | error fault => cases bound
  | ok first => exact ⟨first, rfl, bound⟩

theorem map_ok {α β : Type} {result : Except Fault α} {next : α → β} {value : β}
    (mapped : result.map next = .ok value) : ∃ first, result = .ok first ∧ next first = value := by
  cases result with
  | error fault => cases mapped
  | ok first => exact ⟨first, rfl, Except.ok.inj mapped⟩

theorem store_ok {contents stored : Contents} {start : Int} {data : List UInt8}
    (done : contents.store start data = .ok stored) :
    stored.bytes.length = contents.bytes.length ∧
      (data = [] ∨ 0 ≤ start ∧ start + data.length ≤ contents.bytes.length) := by
  unfold Contents.store at done
  split at done
  next empty =>
    cases done
    exact ⟨rfl, Or.inl empty⟩
  next =>
    split at done
    next inside =>
      cases done
      refine ⟨?_, Or.inr inside⟩
      simp only [List.length_append, List.length_take, List.length_drop]
      omega
    next => cases done

theorem growCapacity_range {minsize : Int} (rounds : Nat) : ∀ newcap grown : Int,
    -2147483648 ≤ newcap ∧ newcap < 2147483648 → growCapacity rounds newcap minsize = some grown →
      -2147483648 ≤ grown ∧ grown < 2147483648 := by
  induction rounds with
  | zero =>
      intro newcap grown _ found
      cases found
  | succ rounds ih =>
      intro newcap grown range found
      rw [growCapacity] at found
      split at found
      · exact ih _ grown (int_range _) found
      · cases found
        exact range

theorem memstreamGrow_sound {ms after : Memstream} {contents : Contents} {minsize value : Int}
    {grant : Option Grant} (held : ms.contents = some contents) (sound : Sound ms contents)
    (grown : memstreamGrow ms minsize grant = .ok (value, after)) :
    after.position = ms.position ∧ after.size = ms.size ∧ Kept after := by
  unfold memstreamGrow at grown
  rw [held] at grown
  dsimp only at grown
  split at grown
  · cases grown
  next newcap loop =>
    cases grant with
    | none =>
        cases grown
        exact ⟨rfl, rfl, fun contents held => by cases held⟩
    | some grant =>
        dsimp only at grown
        split at grown
        · cases grown
        next forward =>
          obtain ⟨stored, done, result⟩ := map_ok grown
          cases result
          refine ⟨rfl, rfl, ?_⟩
          intro after found
          cases found
          obtain ⟨length, room⟩ := store_ok done
          have range := growCapacity_range _ _ _ (int_range _) loop
          obtain ⟨position, size, capacity, -⟩ := sound
          have resized : (contents.realloc grant newcap.toNat).bytes.length = newcap.toNat := by
            simp only [Contents.realloc, List.length_take, List.length_append, List.length_map,
              List.length_range]
            omega
          rw [resized] at length room
          rw [int_eq] at forward room
          have larger : ms.capacity ≤ newcap := by
            rcases room with empty | ⟨-, inside⟩
            · rw [List.replicate_eq_nil_iff] at empty
              omega
            · rw [List.length_replicate] at inside
              omega
          exact ⟨position, ⟨size.1, by dsimp only; omega⟩, range.2, by dsimp only; omega⟩

theorem check_ok {ms : Memstream} (checked : ms.check = .ok ()) : ms.size < ms.capacity := by
  unfold Memstream.check at checked
  split at checked
  next room => exact room
  next => cases checked

@[simp] theorem extend_fields (abi : Abi) (ms : Memstream) :
    (Memstream.extend abi ms).position = ms.position ∧
      (Memstream.extend abi ms).size = max ms.size ms.position ∧
      (Memstream.extend abi ms).capacity = ms.capacity ∧
      (Memstream.extend abi ms).contents = ms.contents := by
  unfold Memstream.extend
  split
  · exact ⟨rfl, by simp only; omega, rfl, rfl⟩
  · exact ⟨rfl, by omega, rfl, rfl⟩

theorem kept_extend {abi : Abi} {ms : Memstream} (kept : Kept ms) {position : Int}
    (checked : (Memstream.extend abi { ms with position := int position }).check = .ok ()) :
    Kept (Memstream.extend abi { ms with position := int position }) := by
  intro contents found
  obtain ⟨place, size, capacity, same⟩ :=
    extend_fields abi { ms with position := int position }
  rw [same] at found
  obtain ⟨before, within, bounded, length⟩ := kept contents found
  have room := check_ok checked
  have range := int_range position
  dsimp only at place size capacity
  refine ⟨?_, ?_, ?_, ?_⟩
  · rw [place, size]
    omega
  · rw [size] at room ⊢
    omega
  · rw [capacity]
    exact bounded
  · rw [capacity]
    exact length

theorem memstreamWrite_kept {abi : Abi} {ms after : Memstream} {buf : List UInt8}
    {grant : Option Grant} {value : Int} (kept : Kept ms)
    (written : memstreamWrite abi ms buf grant = .ok (value, after)) : Kept after := by
  unfold memstreamWrite at written
  split at written
  · cases written
    exact kept
  next present =>
    obtain ⟨contents, held⟩ := Option.ne_none_iff_exists'.mp (by simpa using present)
    have sound := kept contents held
    dsimp only at written
    obtain ⟨⟨grown, larger⟩, enlarged, rest⟩ := bind_ok written
    have larger_kept : Kept larger := by
      split at enlarged
      · exact (memstreamGrow_sound held sound enlarged).2.2
      · cases enlarged
        exact kept
    dsimp only at rest
    split at rest
    · cases rest
      exact larger_kept
    · split at rest
      · cases rest
      next old found =>
        obtain ⟨stored, done, rest⟩ := bind_ok rest
        obtain ⟨_, checked, result⟩ := map_ok rest
        cases result
        have stored_kept : Kept { larger with contents := some stored } := by
          intro contents same
          cases same
          obtain ⟨position, size, capacity, length⟩ := larger_kept old found
          exact ⟨position, size, capacity, by rw [(store_ok done).1]; exact length⟩
        exact kept_extend stored_kept checked

theorem memstreamSeek_kept {abi : Abi} {ms after : Memstream} {offset : Int64} {whence : Int32}
    {grant : Option Grant} {value : Int} (kept : Kept ms)
    (sought : memstreamSeek abi ms offset whence grant = .ok (value, after)) : Kept after := by
  unfold memstreamSeek at sought
  split at sought
  · cases sought
    exact kept
  next present =>
    obtain ⟨contents, held⟩ := Option.ne_none_iff_exists'.mp (by simpa using present)
    split at sought
    · cases sought
      exact kept
    next pos asked =>
      obtain ⟨⟨grown, larger⟩, enlarged, rest⟩ := bind_ok sought
      have larger_kept : Kept larger := by
        split at enlarged
        · exact (memstreamGrow_sound held (kept contents held) enlarged).2.2
        · cases enlarged
          exact kept
      obtain ⟨_, checked, result⟩ := map_ok rest
      cases result
      exact kept_extend larger_kept checked

theorem performAll_kept {abi : Abi} (ops : List Op) : ∀ {ms after : Memstream} {values : List Int},
    Kept ms → performAll abi ms ops = .ok (values, after) → Kept after := by
  induction ops with
  | nil =>
      intro ms after values kept performed
      cases performed
      exact kept
  | cons op ops ih =>
      intro ms after values kept performed
      obtain ⟨⟨value, next⟩, first, rest⟩ := bind_ok performed
      obtain ⟨⟨values, last⟩, others, result⟩ := map_ok rest
      cases result
      have next_kept : Kept next := by
        cases op with
        | write buf grant => exact memstreamWrite_kept kept first
        | seek offset whence grant => exact memstreamSeek_kept kept first
      exact ih next_kept others

theorem openMemstream_kept (address : Nat) : Kept (openMemstream address) := by
  intro contents found
  cases found
  constructor <;> simp only [openMemstream, List.length_replicate, initialCapacity] <;> omega

/-! ## Runs of reads -/

structure ReadCall where
  value : Int
  bytes : List UInt8
  position : Int
  deriving DecidableEq, Repr

def memstreamReads (ms : Memstream) : List Int32 → Except Fault (List ReadCall)
  | [] => .ok []
  | count :: rest =>
      (memstreamRead ms count).bind fun (value, bytes, after) =>
        (memstreamReads after rest).map fun calls => ⟨value, bytes, after.position⟩ :: calls

def Memstream.data (ms : Memstream) : List UInt8 :=
  match ms.contents with
  | none => []
  | some contents => contents.bytes.take ms.size.toNat

def Advances : Int → List ReadCall → Prop
  | _, [] => True
  | position, call :: rest =>
      call.position = position + call.bytes.length ∧ Advances call.position rest

def counted (counts : List Int32) : List Nat := counts.map fun count => count.toInt.toNat

/-- The reads together return the data from the position on, and move the position by what they
return. Reads that ask for bytes start where a stream has data. -/
def ReadsData (ms : Memstream) (counts : List Int32) : Prop :=
  ∃ calls, memstreamReads ms counts = .ok calls ∧ Advances ms.position calls ∧
    (0 < (counted counts).sum → 0 ≤ ms.position) ∧
    calls.flatMap (·.bytes) = piece ms.data ms.position.toNat (counted counts).sum

def FromStart (data : List UInt8) : Nat → List Nat → Prop
  | _, [] => True
  | position, count :: rest =>
      piece data position count = piece data 0 (piece data position count).length ∧
        FromStart data (position + (piece data position count).length) rest

theorem data_length {ms : Memstream} {contents : Contents} (held : ms.contents = some contents)
    (sound : Sound ms contents) : ms.data.length = ms.size.toNat := by
  obtain ⟨-, size, -, length⟩ := sound
  simp only [Memstream.data, held, List.length_take]
  omega

theorem memstreamRead_spec {ms : Memstream} (kept : Kept ms) (nonneg : 0 ≤ ms.position)
    (count : Int32) :
    let copied := (piece ms.data ms.position.toNat count.toInt.toNat).length
    ∃ value, memstreamRead ms count =
      .ok (value, piece ms.data 0 copied, { ms with position := ms.position + copied }) := by
  cases held : ms.contents with
  | none =>
      have empty : ms.data = [] := by rw [Memstream.data, held]
      refine ⟨-1, ?_⟩
      rw [memstreamRead, held, empty, length_piece]
      simp only [List.length_nil, Nat.zero_sub, Nat.min_zero, Nat.cast_zero, Int.add_zero, piece,
        List.take_zero]
      rw [← held]
  | some contents =>
      have sound := kept contents held
      have length := data_length held sound
      obtain ⟨position, size, capacity, full⟩ := sound
      have upper := count.toInt_lt
      have left : int (ms.size - ms.position) = ms.size - ms.position :=
        int_eq_self (by omega) (by omega)
      rw [length_piece, length]
      generalize copied : min count.toInt.toNat (ms.size.toNat - ms.position.toNat) = bytes
      dsimp only
      rw [memstreamRead, held]
      dsimp only
      rw [left]
      split
      next none =>
        have zero : bytes = 0 := by omega
        subst zero
        refine ⟨0, ?_⟩
        simp only [Nat.cast_zero, Int.add_zero, piece, List.take_zero]
        rw [← held]
      next some =>
        have exactly : min (ms.size - ms.position) count.toInt = bytes := by omega
        have within : ¬ (contents.bytes.length : Int) < bytes := by omega
        have next : int (ms.position + bytes) = ms.position + bytes :=
          int_eq_self (by omega) (by omega)
        have start : contents.bytes.take bytes = piece ms.data 0 bytes := by
          rw [piece, Memstream.data, held, List.drop_zero, List.take_take, Nat.min_eq_left (by omega)]
        refine ⟨bytes, ?_⟩
        rw [exactly, if_neg within, Int.toNat_natCast, next, start]

def starts (data : List UInt8) : Nat → List Nat → List UInt8
  | _, [] => []
  | position, count :: rest =>
      piece data 0 (piece data position count).length ++
        starts data (position + (piece data position count).length) rest

theorem memstreamReads_spec (counts : List Int32) : ∀ {ms : Memstream}, Kept ms →
    0 ≤ ms.position →
    ∃ calls, memstreamReads ms counts = .ok calls ∧ Advances ms.position calls ∧
      calls.flatMap (·.bytes) = starts ms.data ms.position.toNat (counted counts) := by
  induction counts with
  | nil =>
      intro ms _ _
      exact ⟨[], rfl, True.intro, rfl⟩
  | cons count rest ih =>
      intro ms kept nonneg
      obtain ⟨value, read⟩ := memstreamRead_spec kept nonneg count
      have most := length_piece ms.data ms.position.toNat count.toInt.toNat
      generalize copied : (piece ms.data ms.position.toNat count.toInt.toNat).length = bytes
        at read most
      have moved : Kept { ms with position := ms.position + bytes } := by
        intro contents held
        have sound := kept contents held
        have length : ms.data.length = ms.size.toNat := data_length held sound
        obtain ⟨position, size, capacity, full⟩ := sound
        exact ⟨by dsimp only; omega, size, capacity, full⟩
      obtain ⟨calls, others, advances, together⟩ := ih moved (by dsimp only; omega)
      have first : bytes ≤ ms.data.length := by omega
      have exactly := length_piece ms.data 0 bytes
      refine ⟨⟨value, piece ms.data 0 bytes, ms.position + bytes⟩ :: calls, ?_, ?_, ?_⟩
      · rw [memstreamReads, read]
        simp only [Except.bind, others, Except.map]
      · refine ⟨?_, advances⟩
        dsimp only
        rw [exactly]
        omega
      · have next : (ms.position + bytes).toNat = ms.position.toNat + bytes := by omega
        rw [List.flatMap_cons, together]
        simp only [counted, List.map_cons, starts, copied, next]
        rfl

theorem starts_eq_iff (data : List UInt8) (counts : List Nat) : ∀ position,
    starts data position counts = pieces data position counts ↔ FromStart data position counts := by
  induction counts with
  | nil =>
      intro position
      exact iff_of_true rfl True.intro
  | cons count rest ih =>
      intro position
      have most := length_piece data position count
      have same : (piece data 0 (piece data position count).length).length =
          (piece data position count).length := by
        rw [length_piece data 0]
        omega
      rw [starts, pieces, FromStart, ← ih, eq_comm (a := piece data position count)]
      constructor
      · intro equal
        exact List.append_inj equal same
      · rintro ⟨first, others⟩
        rw [others, first]

theorem memstreamReads_none (ms : Memstream) (counts : List Int32)
    (none : (counted counts).sum = 0) :
    ∃ calls, memstreamReads ms counts = .ok calls ∧ Advances ms.position calls ∧
      calls.flatMap (·.bytes) = [] := by
  induction counts with
  | nil => exact ⟨[], rfl, True.intro, rfl⟩
  | cons count rest ih =>
      rw [counted, List.map_cons, List.sum_cons, Nat.add_eq_zero_iff] at none
      obtain ⟨calls, others, advances, together⟩ := ih none.2
      have nothing : ∃ value, memstreamRead ms count = .ok (value, [], ms) := by
        unfold memstreamRead
        split
        · exact ⟨-1, rfl⟩
        · have few : min (int (ms.size - ms.position)) count.toInt < 1 := by omega
          dsimp only
          rw [if_pos few]
          exact ⟨0, rfl⟩
      obtain ⟨value, read⟩ := nothing
      refine ⟨⟨value, [], ms.position⟩ :: calls, ?_, ⟨?_, advances⟩, ?_⟩
      · rw [memstreamReads, read]
        simp only [Except.bind, others, Except.map]
      · simp only [List.length_nil, Nat.cast_zero, Int.add_zero]
      · rw [List.flatMap_cons, together]
        rfl

theorem readsData_iff {ms : Memstream} (kept : Kept ms) (counts : List Int32) :
    ReadsData ms counts ↔ (counted counts).sum = 0 ∨
      0 ≤ ms.position ∧ FromStart ms.data ms.position.toNat (counted counts) := by
  constructor
  · rintro ⟨calls, done, -, nonneg, together⟩
    by_cases none : (counted counts).sum = 0
    · exact Or.inl none
    · have start := nonneg (Nat.pos_of_ne_zero none)
      obtain ⟨same, reads, -, copied⟩ := memstreamReads_spec counts kept start
      rw [done] at reads
      cases reads
      rw [copied, ← pieces_eq, starts_eq_iff] at together
      exact Or.inr ⟨start, together⟩
  · rintro (none | ⟨start, fromStart⟩)
    · obtain ⟨calls, done, advances, together⟩ := memstreamReads_none ms counts none
      refine ⟨calls, done, advances, by omega, ?_⟩
      rw [together, none, piece, List.take_zero]
    · obtain ⟨calls, done, advances, together⟩ := memstreamReads_spec counts kept start
      refine ⟨calls, done, advances, fun _ => start, ?_⟩
      rw [together, (starts_eq_iff _ _ _).mpr fromStart, pieces_eq]

/-- After any run of writes and seeks, reads return the data from the position on exactly where
those start as the data do. -/
theorem memstream_reads_iff {abi : Abi} {address : Nat} {ops : List Op} {values : List Int}
    {ms : Memstream} (reached : performAll abi (openMemstream address) ops = .ok (values, ms))
    (counts : List Int32) :
    ReadsData ms counts ↔ (counted counts).sum = 0 ∨
      0 ≤ ms.position ∧ FromStart ms.data ms.position.toNat (counted counts) :=
  readsData_iff (performAll_kept ops (openMemstream_kept address) reached) counts

theorem refines_data {ms : Memstream} {array : GrowingArray} (refines : Refines ms array) :
    ms.data = array.data := by
  obtain ⟨-, size, -, ⟨address, -, contents⟩, -⟩ := refines
  rw [Memstream.data, contents, size, Int.toNat_natCast]
  exact List.take_left

def writtenOps (position : Int64) : List Op :=
  [.write [97, 98, 99] (some ⟨8192, fun _ => 7⟩), .seek position seekSet (some ⟨8192, fun _ => 7⟩)]

theorem writtenOps_refines {position : Int64} (inside : 0 ≤ position.toInt ∧ position.toInt ≤ 3) :
    ∃ values ms, performAll .lp64 (openMemstream 4096) (writtenOps position) = .ok (values, ms) ∧
      ms.position = position.toInt ∧ ms.data = [97, 98, 99] := by
  have allowed : Throughout GrowingArray.apply GrowingArray.Allowed .empty (writtenOps position) := by
    refine ⟨⟨rfl, by decide, by decide⟩, ⟨rfl, ?_, ?_⟩, True.intro⟩
    · exact inside.1
    · change position.toInt < 2 ^ 30
      omega
  obtain ⟨ms, performed, refines⟩ :=
    performAll_refines .lp64 _ _ _ (refines_openMemstream 4096) allowed
  refine ⟨_, ms, performed, ?_, ?_⟩
  · rw [refines.position]
    change (position.toInt.toNat : Int) = position.toInt
    omega
  · rw [refines_data refines]
    change [97, 98, 99] ++ List.replicate (position.toInt.toNat - 3) 0 = _
    rw [Nat.sub_eq_zero_of_le (by omega)]
    rfl

theorem memstream_reads_start : ∃ values ms,
    performAll .lp64 (openMemstream 4096) (writtenOps 0) = .ok (values, ms) ∧
      ReadsData ms [2] := by
  obtain ⟨values, ms, reached, position, data⟩ :=
    writtenOps_refines (show 0 ≤ (0 : Int64).toInt ∧ (0 : Int64).toInt ≤ 3 by decide)
  refine ⟨values, ms, reached, ?_⟩
  rw [memstream_reads_iff reached, position, data]
  exact Or.inr ⟨by decide, rfl, True.intro⟩

theorem memstream_reads_again :
    ¬ ∀ (abi : Abi) (address : Nat) (ops : List Op) (values : List Int) (ms : Memstream),
      performAll abi (openMemstream address) ops = .ok (values, ms) →
      ∀ counts, ReadsData ms counts := by
  intro always
  obtain ⟨values, ms, reached, position, data⟩ :=
    writtenOps_refines (show 0 ≤ (1 : Int64).toInt ∧ (1 : Int64).toInt ≤ 3 by decide)
  have kept := performAll_kept _ (openMemstream_kept 4096) reached
  have reads := (readsData_iff kept [2]).mp (always .lp64 4096 _ values ms reached [2])
  rw [position, data] at reads
  rcases reads with none | ⟨-, same, -⟩
  · exact absurd none (by decide)
  · exact absurd same (by decide)

end LegacySupport.OpenMemstream
