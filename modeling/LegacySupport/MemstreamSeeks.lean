import LegacySupport.MemstreamReads

/-!
Failing seeks of a memory stream. A seek takes its position from a 64-bit target without looking
whether it is negative, fits, or could be made room for.
-/

namespace LegacySupport.OpenMemstream

open CInt Pieces Runs

inductive Call
  | read (count : Int32)
  | write (buf : List UInt8) (grant : Option Grant)
  | seek (offset : Int64) (whence : Int32) (grant : Option Grant)

def Memstream.next (abi : Abi) (ms : Memstream) : Call → Memstream
  | .read count =>
      match memstreamRead ms count with
      | .ok (_, _, after) => after
      | .error _ => ms
  | .write buf grant =>
      match memstreamWrite abi ms buf grant with
      | .ok (_, after) => after
      | .error _ => ms
  | .seek offset whence grant =>
      match memstreamSeek abi ms offset whence grant with
      | .ok (_, after) => after
      | .error _ => ms

def Call.Counted : Call → Prop
  | .write buf _ => buf.length < 2 ^ 31
  | _ => True

def Memstream.aim (ms : Memstream) (offset : Int64) (whence : Int32) : Option Int :=
  if whence = seekSet then some offset.toInt
  else if whence = seekCur then some (ms.position + offset.toInt)
  else if whence = seekEnd then some (ms.size + offset.toInt)
  else none

def SeekFails (ms : Memstream) (offset : Int64) (whence : Int32) (grant : Option Grant) : Prop :=
  ∃ target, ms.aim offset whence = some target ∧
    (target < 0 ∨ 2 ^ 31 ≤ target ∨
      ms.capacity ≤ target ∧ (grant = none ∨ 2 ^ 30 ≤ target))

/-- A failing seek returns an error and leaves the stream alone, any seek leaves the position
within the data and these within the contents, and a write does not store outside them. -/
def CallHonoured (abi : Abi) (ms : Memstream) : Call → Prop
  | .read _ => True
  | .write buf grant => memstreamWrite abi ms buf grant ≠ .error .outside
  | .seek offset whence grant =>
      (SeekFails ms offset whence grant →
        memstreamSeek abi ms offset whence grant = .ok (-1, ms)) ∧
      ∃ value after, memstreamSeek abi ms offset whence grant = .ok (value, after) ∧
        0 ≤ after.position ∧ after.position ≤ after.size ∧ after.size < after.capacity

/-- Where the stream has its contents, no seek fails, and the position after a write is an
`int`. -/
def CallGuard (ms : Memstream) : Call → Prop
  | .read _ => True
  | .write buf _ => ms.contents = none ∨ ms.position + buf.length < 2 ^ 31
  | .seek offset whence grant =>
      ms.contents = none ∨ ∀ target, ms.aim offset whence = some target →
        0 ≤ target ∧ (target < ms.capacity ∨ target < 2 ^ 30 ∧ grant.isSome)

def Doubled (capacity : Int) : Prop := ∃ doublings ≤ 18, capacity = 4096 * 2 ^ doublings

/-- What guarded calls keep. A write that is not granted its room leaves no contents. -/
structure Steady (ms : Memstream) : Prop where
  position : 0 ≤ ms.position ∧ ms.position ≤ ms.size
  room : ms.size < ms.capacity
  capacity : Doubled ms.capacity
  contents : ms.contents = none ∨ ∃ array, Refines ms array

/-! ## Growing -/

theorem doubled_le {capacity : Int} (doubled : Doubled capacity) :
    4096 ≤ capacity ∧ capacity ≤ 1073741824 := by
  obtain ⟨doublings, few, rfl⟩ := doubled
  have upper : (2 : Int) ^ doublings ≤ 2 ^ 18 := by gcongr; omega
  have lower : (1 : Int) ≤ 2 ^ doublings := one_le_pow₀ (by omega)
  constructor <;> omega

theorem doubled_next {capacity : Int} (doubled : Doubled capacity) :
    Doubled (int (capacity * 2)) ∨ int (capacity * 2) = -2147483648 ∨ int (capacity * 2) = 0 := by
  obtain ⟨doublings, few, rfl⟩ := doubled
  by_cases last : doublings = 18
  · subst last
    exact Or.inr (Or.inl (by decide))
  · refine Or.inl ⟨doublings + 1, by omega, ?_⟩
    have bounded := doubled_le ⟨doublings + 1, by omega, rfl⟩
    rw [pow_succ] at bounded ⊢
    rw [int_eq_self (by omega) (by omega)]
    omega

theorem growCapacity_doubled {minsize : Int} (rounds : Nat) :
    ∀ newcap grown : Int, (Doubled newcap ∨ newcap = -2147483648 ∨ newcap = 0) →
      growCapacity rounds newcap minsize = some grown →
        (Doubled grown ∨ grown = -2147483648 ∨ grown = 0) ∧ minsize < grown := by
  induction rounds with
  | zero =>
      intro newcap grown _ found
      cases found
  | succ rounds ih =>
      intro newcap grown start found
      rw [growCapacity] at found
      split at found
      next small =>
        refine ih (int (newcap * 2)) grown ?_ found
        rcases start with doubled | rfl | rfl
        · exact doubled_next doubled
        · exact Or.inr (Or.inr (by decide))
        · exact Or.inr (Or.inr (by decide))
      next enough =>
        cases found
        exact ⟨start, by omega⟩

theorem growCapacity_none {minsize newcap : Int} (large : 2 ^ 30 ≤ minsize) (rounds : Nat)
    (start : Doubled newcap ∨ newcap = -2147483648 ∨ newcap = 0) :
    growCapacity rounds newcap minsize = none := by
  cases result : growCapacity rounds newcap minsize with
  | none => rfl
  | some grown =>
      obtain ⟨reached, larger⟩ := growCapacity_doubled rounds newcap grown start result
      rcases reached with doubled | rfl | rfl
      · have bounded := (doubled_le doubled).2
        omega
      · omega
      · omega

theorem memstreamGrow_doubled {ms after : Memstream} {minsize value : Int} {grant : Option Grant}
    (kept : Kept ms) (doubled : Doubled ms.capacity)
    (grown : memstreamGrow ms minsize grant = .ok (value, after)) : Doubled after.capacity := by
  cases held : ms.contents with
  | none =>
      rw [memstreamGrow, held] at grown
      cases grown
      exact doubled
  | some contents =>
      have sound := (memstreamGrow_sound held (kept contents held) grown).2.2
      rw [memstreamGrow, held] at grown
      dsimp only at grown
      split at grown
      · cases grown
      next newcap loop =>
        have reached := (growCapacity_doubled _ _ _ (doubled_next doubled) loop).1
        cases grant with
        | none =>
            cases grown
            exact doubled
        | some grant =>
            dsimp only at grown
            split at grown
            · cases grown
            · obtain ⟨stored, _, result⟩ := map_ok grown
              cases result
              -- the data of the stream fit in, so the capacity is none that has overflowed
              have size := (sound stored rfl).size
              dsimp only at size
              rcases reached with larger | rfl | rfl
              · exact larger
              · omega
              · omega

theorem memstreamGrow_fails {ms : Memstream} {contents : Contents} {minsize : Int}
    {grant : Option Grant} (held : ms.contents = some contents) (doubled : Doubled ms.capacity)
    (fails : grant = none ∨ 2 ^ 30 ≤ minsize) :
    memstreamGrow ms minsize grant = .error .diverges ∨
      memstreamGrow ms minsize grant = .ok (-1, { ms with contents := none }) := by
  unfold memstreamGrow
  rw [held]
  dsimp only
  cases loop : growCapacity growRounds (int (ms.capacity * 2)) minsize with
  | none => exact Or.inl rfl
  | some newcap =>
      rcases fails with rfl | large
      · exact Or.inr rfl
      · rw [growCapacity_none large _ (doubled_next doubled)] at loop
        cases loop

theorem steady_kept {ms : Memstream} (steady : Steady ms) : Kept ms := by
  intro contents held
  rcases steady.contents with none | ⟨array, refines⟩
  · rw [held] at none
    cases none
  · obtain ⟨address, -, same⟩ := refines.contents
    rw [held] at same
    cases same
    have bounded := doubled_le steady.capacity
    have position := steady.position
    have room := steady.room
    have size := refines.size
    refine ⟨⟨by omega, position.2⟩, ⟨by omega, room⟩, by omega, ?_⟩
    rw [List.length_append, List.length_replicate]
    omega

/-! ## Seeking -/

theorem aim_refines {ms : Memstream} {array : GrowingArray} (refines : Refines ms array)
    (offset : Int64) (whence : Int32) : ms.aim offset whence = array.target offset whence := by
  rw [Memstream.aim, GrowingArray.target, refines.position, refines.size]

theorem memstreamSeek_moves {abi : Abi} {ms after : Memstream} {offset : Int64} {whence : Int32}
    {grant : Option Grant} {pos value : Int} (present : ms.contents ≠ none)
    (asked : ms.target offset whence = some pos)
    (sought : memstreamSeek abi ms offset whence grant = .ok (value, after)) :
    value = pos ∧ after.position = int pos := by
  unfold memstreamSeek at sought
  rw [if_neg (by simpa using present), asked] at sought
  obtain ⟨⟨_, larger⟩, _, rest⟩ := bind_ok sought
  obtain ⟨_, _, result⟩ := map_ok rest
  cases result
  exact ⟨rfl, (extend_fields abi _).1⟩

theorem memstreamSeek_doubled {abi : Abi} {ms after : Memstream} {offset : Int64} {whence : Int32}
    {grant : Option Grant} {value : Int} (kept : Kept ms) (doubled : Doubled ms.capacity)
    (sought : memstreamSeek abi ms offset whence grant = .ok (value, after)) :
    Doubled after.capacity := by
  unfold memstreamSeek at sought
  split at sought
  · cases sought
    exact doubled
  split at sought
  · cases sought
    exact doubled
  obtain ⟨⟨_, larger⟩, enlarged, rest⟩ := bind_ok sought
  obtain ⟨_, _, result⟩ := map_ok rest
  cases result
  rw [(extend_fields abi _).2.2.1]
  dsimp only at enlarged ⊢
  split at enlarged
  · exact memstreamGrow_doubled kept doubled enlarged
  · cases enlarged
    exact doubled

theorem memstreamSeek_ungrown {abi : Abi} {ms : Memstream} {offset : Int64} {whence : Int32}
    {pos : Int} (asked : ms.target offset whence = some pos) (inside : pos < ms.capacity)
    (grant other : Option Grant) :
    memstreamSeek abi ms offset whence grant = memstreamSeek abi ms offset whence other := by
  have enough : ¬ pos ≥ ms.capacity := by omega
  simp only [memstreamSeek, asked, if_neg enough]

theorem target_some {ms : Memstream} {offset : Int64} {whence : Int32} {aimed : Int}
    (asked : ms.aim offset whence = some aimed) : ∃ pos, ms.target offset whence = some pos := by
  unfold Memstream.aim at asked
  unfold Memstream.target
  split_ifs at asked ⊢ <;> exact ⟨_, rfl⟩

theorem steady_of_refines {ms : Memstream} {array : GrowingArray} (refines : Refines ms array)
    (doubled : Doubled ms.capacity) : Steady ms := by
  have inside := array.inside
  refine ⟨?_, refines.room, doubled, Or.inr ⟨array, refines⟩⟩
  rw [refines.position, refines.size]
  omega

theorem memstreamSeek_unmoved {abi : Abi} {ms : Memstream} {offset : Int64} {whence : Int32}
    (grant : Option Grant) (still : ms.contents = none ∨ ms.aim offset whence = none) :
    memstreamSeek abi ms offset whence grant = .ok (-1, ms) := by
  unfold memstreamSeek
  split
  · rfl
  next present =>
    rcases still with none | invalid
    · exact absurd (by rw [none]; rfl) present
    · have refused : ms.target offset whence = none := by
        unfold Memstream.aim at invalid
        unfold Memstream.target
        split_ifs at invalid ⊢
        rfl
      rw [refused]

theorem seek_guarded (abi : Abi) {ms : Memstream} (steady : Steady ms) {offset : Int64}
    {whence : Int32} {grant : Option Grant} (guarded : CallGuard ms (.seek offset whence grant)) :
    (SeekFails ms offset whence grant →
        memstreamSeek abi ms offset whence grant = .ok (-1, ms)) ∧
      ∃ value after, memstreamSeek abi ms offset whence grant = .ok (value, after) ∧
        Steady after := by
  rcases steady.contents with none | ⟨array, refines⟩
  · have unmoved := @memstreamSeek_unmoved abi ms offset whence grant (Or.inl none)
    exact ⟨fun _ => unmoved, -1, ms, unmoved, steady⟩
  cases asked : ms.aim offset whence with
  | none =>
      have unmoved := @memstreamSeek_unmoved abi ms offset whence grant (Or.inr asked)
      exact ⟨fun _ => unmoved, -1, ms, unmoved, steady⟩
  | some target =>
      obtain ⟨address, -, held⟩ := refines.contents
      have within : 0 ≤ target ∧ (target < ms.capacity ∨ target < 2 ^ 30 ∧ grant.isSome) := by
        rcases guarded with none | within
        · rw [held] at none
          cases none
        · exact within target asked
      have bounded := (doubled_le steady.capacity).2
      have small : target < 2 ^ 30 := by omega
      constructor
      · rintro ⟨aimed, same, fails⟩
        rw [asked] at same
        cases same
        rcases within.2 with inside | ⟨-, granted⟩
        · omega
        · rcases fails with below | above | ⟨-, refused | above⟩
          · omega
          · omega
          · rw [refused] at granted
            cases granted
          · omega
      · rw [aim_refines refines] at asked
        have pos := target_eq refines asked within.1 small
        have fits : int target = target := int_eq_self (by omega) (by omega)
        obtain ⟨after, sought, moved⟩ : ∃ after,
            memstreamSeek abi ms offset whence grant = .ok (target, after) ∧
              Refines after (array.seek target.toNat) := by
          rcases within.2 with inside | ⟨-, granted⟩
          · rw [memstreamSeek_ungrown pos inside grant (some ⟨0, fun _ => 0⟩)]
            exact memstreamSeek_refines abi refines asked within.1 small _
          · obtain ⟨place, rfl⟩ := Option.isSome_iff_exists.mp granted
            exact memstreamSeek_refines abi refines asked within.1 small place
        have doubled := memstreamSeek_doubled (steady_kept steady) steady.capacity sought
        exact ⟨target, after, sought, steady_of_refines moved doubled⟩

theorem seek_honoured_iff {abi : Abi} {ms : Memstream} (steady : Steady ms) (offset : Int64)
    (whence : Int32) (grant : Option Grant) :
    CallHonoured abi ms (.seek offset whence grant) ↔
      CallGuard ms (.seek offset whence grant) := by
  constructor
  · rintro ⟨honoured, -⟩
    by_contra unguarded
    simp only [CallGuard, not_or, not_forall] at unguarded
    obtain ⟨present, target, asked, spoiled⟩ := unguarded
    have fails : SeekFails ms offset whence grant := by
      refine ⟨target, asked, ?_⟩
      cases grant with
      | none =>
          simp only [Option.isSome_none, Bool.false_eq_true, and_false, or_false, not_and] at spoiled
          by_cases negative : target < 0
          · exact Or.inl negative
          · exact Or.inr (Or.inr ⟨by omega, Or.inl rfl⟩)
      | some place =>
          simp only [Option.isSome_some, and_true, not_and, not_or] at spoiled
          by_cases negative : target < 0
          · exact Or.inl negative
          · exact Or.inr (Or.inr ⟨by omega, Or.inr (by omega)⟩)
    -- an error would mean that the position is minus one
    obtain ⟨pos, taken⟩ := target_some asked
    obtain ⟨value, position⟩ := memstreamSeek_moves present taken (honoured fails)
    have nonneg := steady.position.1
    rw [position, ← value] at nonneg
    exact absurd nonneg (by decide)
  · intro guarded
    obtain ⟨unmoved, value, after, sought, kept⟩ := seek_guarded abi steady guarded
    exact ⟨unmoved, value, after, sought, kept.position.1, kept.position.2, kept.room⟩

/-! ## Writing -/

theorem memstreamWrite_ungrown {abi : Abi} {ms : Memstream} {buf : List UInt8}
    (inside : int (ms.position + buf.length) < ms.capacity) (grant other : Option Grant) :
    memstreamWrite abi ms buf grant = memstreamWrite abi ms buf other := by
  have enough : ¬ ms.capacity ≤ int (ms.position + buf.length) := by omega
  simp only [memstreamWrite, if_neg enough]

theorem memstreamWrite_doubled {abi : Abi} {ms after : Memstream} {buf : List UInt8}
    {grant : Option Grant} {value : Int} (kept : Kept ms) (doubled : Doubled ms.capacity)
    (written : memstreamWrite abi ms buf grant = .ok (value, after)) : Doubled after.capacity := by
  unfold memstreamWrite at written
  split at written
  · cases written
    exact doubled
  dsimp only at written
  obtain ⟨⟨grown, larger⟩, enlarged, rest⟩ := bind_ok written
  have larger_doubled : Doubled larger.capacity := by
    split at enlarged
    · exact memstreamGrow_doubled kept doubled enlarged
    · cases enlarged
      exact doubled
  dsimp only at rest
  split at rest
  · cases rest
    exact larger_doubled
  split at rest
  · cases rest
  · obtain ⟨stored, _, rest⟩ := bind_ok rest
    obtain ⟨_, _, result⟩ := map_ok rest
    cases result
    rw [(extend_fields abi _).2.2.1]
    exact larger_doubled

theorem write_guarded (abi : Abi) {ms : Memstream} (steady : Steady ms) {buf : List UInt8}
    {grant : Option Grant} (guarded : CallGuard ms (.write buf grant)) :
    memstreamWrite abi ms buf grant = .error .diverges ∨
      ∃ value after, memstreamWrite abi ms buf grant = .ok (value, after) ∧ Steady after := by
  rcases steady.contents with none | ⟨array, refines⟩
  · have refused : memstreamWrite abi ms buf grant = .ok (-1, ms) := by
      rw [memstreamWrite, none]
      rfl
    exact Or.inr ⟨-1, ms, refused, steady⟩
  obtain ⟨address, -, held⟩ := refines.contents
  have position := refines.position
  have small : ms.position + buf.length < 2 ^ 31 := by
    rcases guarded with none | small
    · rw [held] at none
      cases none
    · exact small
  have bounded := (doubled_le steady.capacity).2
  have target : int (ms.position + buf.length) = ms.position + buf.length :=
    int_eq_self (by omega) (by omega)
  by_cases room : ms.position + buf.length < ms.capacity ∨
      ms.position + buf.length < 2 ^ 30 ∧ grant.isSome
  · right
    obtain ⟨after, written, kept⟩ : ∃ after,
        memstreamWrite abi ms buf grant = .ok (buf.length, after) ∧
          Refines after (array.write buf) := by
      rcases room with inside | ⟨few, granted⟩
      · rw [memstreamWrite_ungrown (by omega) grant (some ⟨0, fun _ => 0⟩)]
        exact memstreamWrite_refines abi refines buf _ (by omega)
      · obtain ⟨place, rfl⟩ := Option.isSome_iff_exists.mp granted
        exact memstreamWrite_refines abi refines buf place (by omega)
    exact ⟨_, after, written, steady_of_refines kept
      (memstreamWrite_doubled (steady_kept steady) steady.capacity written)⟩
  · have needed : ms.capacity ≤ int (ms.position + buf.length) := by omega
    have fails : grant = none ∨ 2 ^ 30 ≤ int (ms.position + buf.length) := by
      cases grant with
      | none => exact Or.inl rfl
      | some place =>
          simp only [Option.isSome_some, and_true, not_or, Int.not_lt] at room
          exact Or.inr (by omega)
    unfold memstreamWrite
    rw [held]
    dsimp only [Option.isNone_some]
    rw [if_neg Bool.false_ne_true, if_pos needed]
    rcases memstreamGrow_fails held steady.capacity fails with endless | refused
    · exact Or.inl (by rw [endless]; rfl)
    · refine Or.inr ⟨-1, { ms with contents := none }, by rw [refused]; rfl, ?_⟩
      exact ⟨steady.position, steady.room, steady.capacity, Or.inl rfl⟩

theorem write_overflows (abi : Abi) {ms : Memstream} (steady : Steady ms) {buf : List UInt8}
    {grant : Option Grant} (counted : buf.length < 2 ^ 31)
    (unguarded : ¬ CallGuard ms (.write buf grant)) :
    memstreamWrite abi ms buf grant = .error .outside := by
  simp only [CallGuard, not_or, Int.not_lt] at unguarded
  obtain ⟨present, large⟩ := unguarded
  rcases steady.contents with none | ⟨array, refines⟩
  · exact absurd none present
  obtain ⟨address, -, held⟩ := refines.contents
  have bounded := (doubled_le steady.capacity).2
  have inside := steady.position
  have room := steady.room
  have wraps : ¬ ms.capacity ≤ int (ms.position + buf.length) := by
    rw [int_eq]
    omega
  have nonempty : buf ≠ [] := by
    rintro rfl
    rw [List.length_nil] at large
    omega
  have length := array.inside
  unfold memstreamWrite
  rw [held]
  dsimp only [Option.isNone_some]
  rw [if_neg Bool.false_ne_true, if_neg wraps]
  dsimp only [Except.bind]
  rw [if_neg (Int.lt_irrefl 0), held]
  dsimp only
  have beyond : Contents.store ⟨address,
      array.data ++ List.replicate (ms.capacity.toNat - array.data.length) 0⟩ ms.position buf =
      .error .outside := by
    rw [Contents.store, if_neg nonempty, if_neg]
    rw [List.length_append, List.length_replicate]
    have size := refines.size
    omega
  rw [beyond]

theorem write_honoured_iff {abi : Abi} {ms : Memstream} (steady : Steady ms) (buf : List UInt8)
    (grant : Option Grant) (counted : buf.length < 2 ^ 31) :
    CallHonoured abi ms (.write buf grant) ↔ CallGuard ms (.write buf grant) := by
  constructor
  · intro honoured
    by_contra unguarded
    exact honoured (write_overflows abi steady counted unguarded)
  · intro guarded
    rcases write_guarded abi steady guarded with endless | ⟨value, after, written, -⟩
    · rw [CallHonoured, endless]
      exact fun outside => by cases outside
    · rw [CallHonoured, written]
      exact fun outside => by cases outside

/-! ## Runs -/

theorem read_steady {ms : Memstream} (steady : Steady ms) (count : Int32) :
    ∃ value bytes after, memstreamRead ms count = .ok (value, bytes, after) ∧ Steady after := by
  obtain ⟨value, read⟩ := memstreamRead_spec (steady_kept steady) steady.position.1 count
  refine ⟨value, _, _, read, ?_⟩
  have most := length_piece ms.data ms.position.toNat count.toInt.toNat
  generalize (piece ms.data ms.position.toNat count.toInt.toNat).length = bytes at most
  obtain ⟨position, room, capacity, contents⟩ := steady
  rcases contents with none | ⟨array, refines⟩
  · have empty : ms.data = [] := by rw [Memstream.data, none]
    rw [empty, List.length_nil] at most
    have still : ms.position + (bytes : Int) = ms.position := by omega
    rw [still]
    exact ⟨position, room, capacity, Or.inl none⟩
  · rw [refines_data refines] at most
    have size := refines.size
    have start := refines.position
    have within : array.cursor + bytes ≤ array.data.length := by omega
    refine ⟨by dsimp only; omega, room, capacity, Or.inr ⟨⟨array.data, _, within⟩, ?_⟩⟩
    refine ⟨?_, size, room, refines.contents, refines.sizeloc⟩
    dsimp only
    omega

theorem next_steady (abi : Abi) (ms : Memstream) (call : Call) (steady : Steady ms)
    (guarded : CallGuard ms call) : Steady (ms.next abi call) := by
  cases call with
  | read count =>
      obtain ⟨value, bytes, after, read, kept⟩ := read_steady steady count
      rw [Memstream.next, read]
      exact kept
  | write buf grant =>
      rcases write_guarded abi steady guarded with endless | ⟨value, after, written, kept⟩
      · rw [Memstream.next, endless]
        exact steady
      · rw [Memstream.next, written]
        exact kept
  | seek offset whence grant =>
      obtain ⟨-, value, after, sought, kept⟩ := seek_guarded abi steady guarded
      rw [Memstream.next, sought]
      exact kept

theorem openMemstream_steady (address : Nat) : Steady (openMemstream address) :=
  steady_of_refines (refines_openMemstream address) ⟨0, by omega, rfl⟩

/-- Whole runs honour their calls exactly while every call is guarded. -/
theorem memstream_seeks_iff (abi : Abi) (address : Nat) {calls : List Call}
    (counted : ∀ call ∈ calls, call.Counted) :
    Throughout (Memstream.next abi) (CallHonoured abi) (openMemstream address) calls ↔
      Throughout (Memstream.next abi) CallGuard (openMemstream address) calls := by
  have preserved : ∀ ms (call : Call), Steady ms → call.Counted → CallGuard ms call →
      Steady (ms.next abi call) := by
    intro ms call steady _ guarded
    exact next_steady abi ms call steady guarded
  have exactly : ∀ ms (call : Call), Steady ms → call.Counted →
      (CallHonoured abi ms call ↔ CallGuard ms call) := by
    intro ms call steady count
    cases call with
    | read count => exact Iff.rfl
    | write buf grant => exact write_honoured_iff steady buf grant count
    | seek offset whence grant => exact seek_honoured_iff steady offset whence grant
  exact throughout_iff_within preserved exactly (openMemstream_steady address)
    ((throughout_inputs Call.Counted _ calls).mpr counted)

theorem memstream_seeks_within :
    Throughout (Memstream.next .lp64) (CallHonoured .lp64) (openMemstream 4096)
      [.seek 100 seekSet none, .seek (-1) 7 none] := by
  have counted : ∀ call ∈ [Call.seek 100 seekSet none, .seek (-1) 7 none], call.Counted := by
    simp [Call.Counted]
  rw [memstream_seeks_iff .lp64 4096 counted]
  refine ⟨Or.inr fun target asked => ?_, Or.inr fun target asked => ?_, True.intro⟩
  · cases asked
    exact ⟨by decide, Or.inl (by decide)⟩
  · cases asked

theorem memstream_seeks_negative :
    ¬ ∀ (abi : Abi) (address : Nat) (calls : List Call), (∀ call ∈ calls, call.Counted) →
      Throughout (Memstream.next abi) (CallHonoured abi) (openMemstream address) calls := by
  intro always
  have run := always .lp64 4096 [.seek (-5) seekSet none] (by simp [Call.Counted])
  have guarded := (seek_honoured_iff (openMemstream_steady 4096) (-5) seekSet none).mp run.1
  rcases guarded with none | within
  · cases none
  · exact absurd (within (-5) rfl).1 (by decide)

end LegacySupport.OpenMemstream
