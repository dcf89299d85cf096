import LegacySupport.MemstreamSeeks

/-!
The growth of a memory stream. The capacity doubles until it exceeds the size asked for, which it
cannot do once the next doubling is no `int`.
-/

namespace LegacySupport.OpenMemstream

open CInt Pieces Runs

def Memstream.minsize (ms : Memstream) : Call → Option Int
  | .read _ => none
  | .write buf _ =>
      if ms.contents.isNone then none
      else
        let minsize := int (ms.position + buf.length)
        if ms.capacity ≤ minsize then some minsize else none
  | .seek offset whence _ =>
      if ms.contents.isNone then none
      else
        match ms.target offset whence with
        | none => none
        | some pos => if pos ≥ ms.capacity then some (int pos) else none

/-- The doubling ends, and from there on `realloc` gives contents that are followed by zeros where
they are new. -/
structure Enlarges (ms : Memstream) (contents : Contents) (minsize newcap : Int) : Prop where
  ends : ∃ rounds, growCapacity rounds (int (ms.capacity * 2)) minsize = some newcap
  representable : newcap < 2 ^ 31
  larger : minsize < newcap
  doubled : 2 * ms.capacity ≤ newcap
  cleared : ∀ grant, memstreamGrow ms minsize (some grant) = .ok (0, { ms with
    contents := some ⟨grant.address,
      contents.bytes ++ List.replicate (newcap - ms.capacity).toNat 0⟩
    capacity := newcap
    ptr := some grant.address })

def Grows (ms : Memstream) (minsize : Int) : Prop :=
  ∃ contents newcap, ms.contents = some contents ∧ Enlarges ms contents minsize newcap

def GrowthGuard (ms : Memstream) (minsize : Int) : Prop := ms.capacity < 2 ^ 30 ∧ minsize < 2 ^ 30

def Call.Diverges (abi : Abi) (ms : Memstream) : Call → Prop
  | .read count => memstreamRead ms count = .error .diverges
  | .write buf grant => memstreamWrite abi ms buf grant = .error .diverges
  | .seek offset whence grant => memstreamSeek abi ms offset whence grant = .error .diverges

/-! ## Doubling -/

theorem growCapacity_ends {capacity minsize : Int} (positive : 4096 ≤ capacity)
    (small : capacity < 2 ^ 30) (few : minsize < 2 ^ 30) :
    ∃ newcap, growCapacity growRounds (int (capacity * 2)) minsize = some newcap ∧
      newcap < 2 ^ 31 ∧ minsize < newcap ∧ 2 * capacity ≤ newcap := by
  have first : int (capacity * 2) = capacity * 2 := int_eq_self (by omega) (by omega)
  rw [first]
  by_cases needed : capacity ≤ minsize
  · obtain ⟨newcap, found, larger, above, below⟩ :=
      growCapacity_spec few 63 (capacity * 2) (by omega) (by omega) (by omega)
    exact ⟨newcap, found, by omega, larger, by omega⟩
  · have enough : ¬ capacity * 2 ≤ minsize := by omega
    refine ⟨capacity * 2, ?_, by omega, by omega, by omega⟩
    rw [growRounds, growCapacity, if_neg enough]

theorem growCapacity_overflowed {minsize : Int} (nonneg : 0 ≤ minsize) (rounds : Nat) :
    ∀ newcap : Int, (newcap = -2147483648 ∨ newcap = 0) →
      growCapacity rounds newcap minsize = none := by
  induction rounds with
  | zero => exact fun newcap overflowed => rfl
  | succ rounds ih =>
      intro newcap overflowed
      have small : newcap ≤ minsize := by omega
      have again : int (newcap * 2) = -2147483648 ∨ int (newcap * 2) = 0 := by
        rw [int_eq]
        omega
      rw [growCapacity, if_pos small]
      exact ih (int (newcap * 2)) again

theorem growCapacity_endless {capacity minsize : Int} (doubled : Doubled capacity)
    (nonneg : 0 ≤ minsize) (large : ¬ (capacity < 2 ^ 30 ∧ minsize < 2 ^ 30)) (rounds : Nat) :
    growCapacity rounds (int (capacity * 2)) minsize = none := by
  have bounds := doubled_le doubled
  by_cases last : capacity < 2 ^ 30
  · exact growCapacity_none (by omega) rounds (doubled_next doubled)
  · have overflowed : int (capacity * 2) = -2147483648 := by
      rw [int_eq]
      omega
    exact growCapacity_overflowed nonneg rounds _ (Or.inl overflowed)

theorem memstreamGrow_cleared {ms : Memstream} {contents : Contents} {minsize newcap : Int}
    (held : ms.contents = some contents) (sound : Sound ms contents)
    (found : growCapacity growRounds (int (ms.capacity * 2)) minsize = some newcap)
    (larger : ms.capacity ≤ newcap) (representable : newcap < 2 ^ 31) (grant : Grant) :
    memstreamGrow ms minsize (some grant) = .ok (0, { ms with
      contents := some ⟨grant.address,
        contents.bytes ++ List.replicate (newcap - ms.capacity).toNat 0⟩
      capacity := newcap
      ptr := some grant.address }) := by
  obtain ⟨-, size, -, length⟩ := sound
  have added : int (newcap - ms.capacity) = newcap - ms.capacity :=
    int_eq_self (by omega) (by omega)
  have forward : ¬ newcap - ms.capacity < 0 := by omega
  have cleared := realloc_cleared contents.bytes contents.address grant
    (Nat.le_refl contents.bytes.length) (show contents.bytes.length ≤ newcap.toNat by omega)
  have count : newcap.toNat - contents.bytes.length = (newcap - ms.capacity).toNat := by omega
  rw [Nat.sub_self, List.replicate_zero, List.append_nil, count, length] at cleared
  rw [memstreamGrow, held]
  dsimp only
  rw [found]
  dsimp only
  rw [added, if_neg forward, cleared]
  rfl

/-! ## Runs -/

structure Grown (ms : Memstream) : Prop where
  kept : Kept ms
  capacity : Doubled ms.capacity

theorem grows_iff {ms : Memstream} (grown : Grown ms) (present : ms.contents ≠ none)
    (minsize : Int) : Grows ms minsize ↔ GrowthGuard ms minsize := by
  have bounds := doubled_le grown.capacity
  constructor
  · rintro ⟨contents, newcap, -, ⟨rounds, found⟩, -, larger, doubled, -⟩
    obtain ⟨reached, -⟩ := growCapacity_doubled rounds _ _ (doubled_next grown.capacity) found
    rcases reached with within | rfl | rfl
    · have most := (doubled_le within).2
      exact ⟨by omega, by omega⟩
    · omega
    · omega
  · rintro ⟨small, few⟩
    obtain ⟨contents, held⟩ := Option.ne_none_iff_exists'.mp present
    obtain ⟨newcap, found, representable, larger, doubled⟩ :=
      growCapacity_ends bounds.1 small few
    exact ⟨contents, newcap, held, ⟨growRounds, found⟩, representable, larger, doubled,
      memstreamGrow_cleared held (grown.kept contents held) found (by omega) representable⟩

theorem memstreamRead_grown {ms after : Memstream} {count : Int32} {value : Int}
    {bytes : List UInt8} (grown : Grown ms)
    (read : memstreamRead ms count = .ok (value, bytes, after)) : Grown after := by
  unfold memstreamRead at read
  split at read
  · cases read
    exact grown
  next contents held =>
    dsimp only at read
    split at read
    · cases read
      exact grown
    split at read
    · cases read
    next some =>
      cases read
      refine ⟨?_, grown.capacity⟩
      intro same found
      obtain ⟨position, size, capacity, length⟩ := grown.kept same found
      have upper := count.toInt_lt
      -- what is left of the data is no `int` where the position is too far before them
      refine ⟨?_, size, capacity, length⟩
      dsimp only
      rw [int_eq] at some
      rw [int_eq, int_eq]
      omega

theorem next_grown (abi : Abi) (ms : Memstream) (call : Call) (grown : Grown ms) :
    Grown (ms.next abi call) := by
  cases call with
  | read count =>
      cases read : memstreamRead ms count with
      | error fault =>
          rw [Memstream.next, read]
          exact grown
      | ok result =>
          rw [Memstream.next, read]
          exact memstreamRead_grown grown read
  | write buf grant =>
      cases written : memstreamWrite abi ms buf grant with
      | error fault =>
          rw [Memstream.next, written]
          exact grown
      | ok result =>
          rw [Memstream.next, written]
          exact ⟨memstreamWrite_kept grown.kept written,
            memstreamWrite_doubled grown.kept grown.capacity written⟩
  | seek offset whence grant =>
      cases sought : memstreamSeek abi ms offset whence grant with
      | error fault =>
          rw [Memstream.next, sought]
          exact grown
      | ok result =>
          rw [Memstream.next, sought]
          exact ⟨memstreamSeek_kept grown.kept sought,
            memstreamSeek_doubled grown.kept grown.capacity sought⟩

theorem openMemstream_grown (address : Nat) : Grown (openMemstream address) :=
  ⟨openMemstream_kept address, (openMemstream_steady address).capacity⟩

theorem minsize_present {ms : Memstream} {call : Call} {minsize : Int}
    (asked : ms.minsize call = some minsize) : ms.contents ≠ none := by
  intro none
  unfold Memstream.minsize at asked
  rw [none] at asked
  cases call <;> cases asked

theorem memstreamGrow_diverges {ms : Memstream} {minsize : Int} (present : ms.contents ≠ none)
    (endless : growCapacity growRounds (int (ms.capacity * 2)) minsize = none)
    (grant : Option Grant) : memstreamGrow ms minsize grant = .error .diverges := by
  obtain ⟨contents, held⟩ := Option.ne_none_iff_exists'.mp present
  rw [memstreamGrow, held]
  dsimp only
  rw [endless]

theorem call_diverges (abi : Abi) {ms : Memstream} {call : Call} {minsize : Int}
    (asked : ms.minsize call = some minsize)
    (endless : growCapacity growRounds (int (ms.capacity * 2)) minsize = none) :
    call.Diverges abi ms := by
  have diverges := memstreamGrow_diverges (minsize_present asked) endless
  unfold Memstream.minsize at asked
  cases call with
  | read count => cases asked
  | write buf grant =>
      dsimp only at asked
      split at asked
      · cases asked
      next present =>
        split at asked
        next needed =>
          cases asked
          rw [Call.Diverges, memstreamWrite, if_neg present]
          dsimp only
          rw [if_pos needed, diverges grant]
          rfl
        next => cases asked
  | seek offset whence grant =>
      dsimp only at asked
      split at asked
      · cases asked
      next present =>
        split at asked
        · cases asked
        next pos target =>
          split at asked
          next needed =>
            cases asked
            rw [Call.Diverges, memstreamSeek, if_neg present, target]
            dsimp only
            rw [if_pos needed, diverges grant]
            rfl
          next => cases asked

def Memstream.reached (abi : Abi) (address : Nat) (calls : List Call) : Memstream :=
  calls.foldl (Memstream.next abi) (openMemstream address)

theorem reached_grown (abi : Abi) (address : Nat) (calls : List Call) :
    Grown (Memstream.reached abi address calls) := by
  have always : Throughout (Memstream.next abi) (fun _ _ => True) (openMemstream address) calls :=
    throughout_always (fun _ _ => True.intro) _ _
  exact Throughout.keeps (fun ms call grown _ => next_grown abi ms call grown)
    (openMemstream_grown address) always

/-- After any calls, a stream grows as it should exactly when its capacity and the size asked for
are below half the range of an `int`; otherwise the loop never ends, and neither does the call. -/
theorem memstream_grows_iff (abi : Abi) (address : Nat) (calls : List Call) {call : Call}
    {minsize : Int} (asked : (Memstream.reached abi address calls).minsize call = some minsize)
    (nonneg : 0 ≤ minsize) :
    (Grows (Memstream.reached abi address calls) minsize ↔
        GrowthGuard (Memstream.reached abi address calls) minsize) ∧
      (¬ GrowthGuard (Memstream.reached abi address calls) minsize →
        (∀ rounds, growCapacity rounds
          (int ((Memstream.reached abi address calls).capacity * 2)) minsize = none) ∧
        call.Diverges abi (Memstream.reached abi address calls)) := by
  have grown := reached_grown abi address calls
  refine ⟨grows_iff grown (minsize_present asked) minsize, fun unguarded => ?_⟩
  have endless := growCapacity_endless grown.capacity nonneg unguarded
  exact ⟨endless, call_diverges abi asked (endless growRounds)⟩

theorem memstream_grows_once :
    Grows (Memstream.reached .lp64 4096 []) 5000 := by
  apply (memstream_grows_iff .lp64 4096 [] (show (Memstream.reached .lp64 4096 []).minsize
    (.seek 5000 seekSet none) = some 5000 by decide) (by decide)).1.mpr
  constructor <;> decide

theorem memstream_grows_forever :
    ¬ ∀ (abi : Abi) (address : Nat) (calls : List Call) (call : Call) (minsize : Int),
      (Memstream.reached abi address calls).minsize call = some minsize → 0 ≤ minsize →
        Grows (Memstream.reached abi address calls) minsize := by
  intro always
  have grows := always .lp64 4096 [] (.seek 1073741824 seekSet none) 1073741824 (by decide)
    (by decide)
  have guarded := (grows_iff (reached_grown .lp64 4096 []) (by decide) _).mp grows
  exact absurd guarded.2 (by decide)

end LegacySupport.OpenMemstream
