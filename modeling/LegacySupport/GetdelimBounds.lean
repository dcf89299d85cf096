import LegacySupport.Getdelim

/-!
The places that `getdelim` stores at. The check for room comes after a character is stored and
looks ahead by two, so the first two stores of a call rely on the caller's size alone.
-/

namespace LegacySupport.Getdelim

open CInt

/-- Each store of the loop, with the size of the buffer then. The delimiter is an `int`, which a
character need not equal. -/
def storesLoop (abi : Abi) (granted : Nat → Bool) (delimiter : Int) :
    List UInt8 → Nat → Nat → List (Nat × Nat)
  | [], _, _ => []
  | c :: rest, bufsiz, ptr =>
      (ptr, bufsiz) ::
        if (c.toNat : Int) = delimiter then [(ptr + 1, bufsiz)]
        else if ptr + 1 + 2 ≥ bufsiz then
          let nbufsiz := abi.sizeT ((bufsiz * 2 : Nat) : Int)
          if granted nbufsiz then storesLoop abi granted delimiter rest nbufsiz (ptr + 1) else []
        else storesLoop abi granted delimiter rest bufsiz (ptr + 1)

def getdelimStores {abi : Abi} (allocator : Allocator) (lineBuf : LineBuf abi) (delimiter : Int)
    (stream : List UInt8) : List (Nat × Nat) :=
  match lineBuf.obtain allocator with
  | none => []
  | some memory => storesLoop abi allocator.reallocGranted delimiter stream memory.val.length 0

def StoresInside (stores : List (Nat × Nat)) : Prop := ∀ store ∈ stores, store.1 < store.2

/-! ## What the call asks for -/

def charactersRead (delimiter : Int) : List UInt8 → Nat
  | [] => 0
  | c :: rest => if (c.toNat : Int) = delimiter then 1 else charactersRead delimiter rest + 1

def Delimited (delimiter : Int) (stream : List UInt8) : Prop :=
  ∃ c ∈ stream, (c.toNat : Int) = delimiter

def sizesTaken (abi : Abi) (granted : Nat → Bool) (bufsiz ptr count : Nat) : List Nat :=
  (growthSizes bufsiz ptr (count - 1)).takeWhile fun size => granted (abi.sizeT (size : Int))

/-- The buffer that a call gets has two bytes or more, or what is read does not end within the
first two; and no size is doubled past what a `size_t` holds. -/
structure StoreGuard (abi : Abi) (granted : Nat → Bool) (delimiter : Int) (stream : List UInt8)
    (bufsiz : Nat) : Prop where
  terminator : bufsiz = 1 → Delimited delimiter stream →
    charactersRead delimiter stream ≠ 1 ∧
      (charactersRead delimiter stream = 2 → granted 2 = false)
  sizes : ∀ size ∈ sizesTaken abi granted bufsiz 0 (charactersRead delimiter stream),
    size < abi.sizeMod

def LineBuf.Representable {abi : Abi} : LineBuf abi → Prop
  | .null _ => True
  | .space memory => memory.val.length + 1 < abi.sizeMod

instance {abi : Abi} : ∀ lineBuf : LineBuf abi, Decidable lineBuf.Representable
  | .null _ => inferInstanceAs (Decidable True)
  | .space memory => inferInstanceAs (Decidable (memory.val.length + 1 < abi.sizeMod))

section Loop

variable {abi : Abi} {granted : Nat → Bool} {delimiter : Int}

theorem storesInside_cons (store : Nat × Nat) (stores : List (Nat × Nat)) :
    StoresInside (store :: stores) ↔ store.1 < store.2 ∧ StoresInside stores :=
  List.forall_mem_cons

theorem storesInside_nil : StoresInside [] := List.forall_mem_nil _

variable (delimiter) in
theorem charactersRead_pos {stream : List UInt8} (more : stream ≠ []) :
    0 < charactersRead delimiter stream := by
  cases stream with
  | nil => exact absurd rfl more
  | cons c rest =>
      rw [charactersRead]
      split
      · exact Nat.one_pos
      · exact Nat.succ_pos _

theorem sizeT_wrapped {bufsiz : Nat} (small : bufsiz + 1 < abi.sizeMod)
    (wraps : abi.sizeMod ≤ bufsiz * 2) :
    abi.sizeT ((bufsiz * 2 : Nat) : Int) + 2 ≤ bufsiz := by
  cases abi <;> simp at small wraps ⊢ <;> omega

theorem sizeMod_even (abi : Abi) : abi.sizeMod % 2 = 0 := by
  cases abi <;> decide

variable (abi granted) in
theorem sizesTaken_succ (bufsiz ptr count : Nat) (more : 0 < count) :
    sizesTaken abi granted bufsiz ptr (count + 1) =
      if ptr + 1 + 2 ≥ bufsiz then
        if granted (abi.sizeT ((bufsiz * 2 : Nat) : Int)) then
          (bufsiz * 2) :: sizesTaken abi granted (bufsiz * 2) (ptr + 1) count
        else []
      else sizesTaken abi granted bufsiz (ptr + 1) count := by
  obtain ⟨before, rfl⟩ := Nat.exists_eq_succ_of_ne_zero (Nat.ne_of_gt more)
  unfold sizesTaken
  rw [Nat.add_sub_cancel, Nat.succ_eq_add_one, Nat.add_sub_cancel, growthSizes]
  split
  · rw [List.takeWhile_cons]
  · rfl

theorem sizesTaken_last (bufsiz ptr count : Nat) (last : count ≤ 1) :
    sizesTaken abi granted bufsiz ptr count = [] := by
  have none : count - 1 = 0 := by omega
  rw [sizesTaken, none]
  rfl

theorem storesLoop_outside {stream : List UInt8} {bufsiz ptr : Nat} (more : stream ≠ [])
    (outside : bufsiz ≤ ptr) :
    ¬ StoresInside (storesLoop abi granted delimiter stream bufsiz ptr) := by
  cases stream with
  | nil => exact absurd rfl more
  | cons c rest =>
      intro inside
      have first := inside (ptr, bufsiz) List.mem_cons_self
      dsimp only at first
      omega

/-- From a position with room for a character and a terminator, the stores stay inside exactly
when no size that is taken wraps. The induction is on the stream. -/
theorem storesLoop_inside_iff : ∀ stream bufsiz ptr, ptr + 1 < bufsiz →
    bufsiz + 1 < abi.sizeMod →
      (StoresInside (storesLoop abi granted delimiter stream bufsiz ptr) ↔
        ∀ size ∈ sizesTaken abi granted bufsiz ptr (charactersRead delimiter stream),
          size < abi.sizeMod) := by
  intro stream
  induction stream with
  | nil =>
      intro bufsiz ptr room small
      rw [charactersRead, sizesTaken_last _ _ _ (Nat.zero_le 1)]
      exact iff_of_true storesInside_nil (List.forall_mem_nil _)
  | cons c rest ih =>
      intro bufsiz ptr room small
      have first : ptr < bufsiz := by omega
      rw [storesLoop, storesInside_cons, charactersRead]
      by_cases same : (c.toNat : Int) = delimiter
      · rw [if_pos same, if_pos same, storesInside_cons, sizesTaken_last _ _ _ (Nat.le_refl 1)]
        exact iff_of_true ⟨first, room, storesInside_nil⟩ (List.forall_mem_nil _)
      rw [if_neg same, if_neg same]
      by_cases ended : rest = []
      · rw [ended, charactersRead, sizesTaken_last _ _ _ (Nat.le_refl 1)]
        refine iff_of_true ⟨first, ?_⟩ (List.forall_mem_nil _)
        dsimp only
        split
        · split
          · exact storesInside_nil
          · exact storesInside_nil
        · exact storesInside_nil
      rw [sizesTaken_succ abi granted _ _ _ (charactersRead_pos delimiter ended), and_iff_right first]
      by_cases short : ptr + 1 + 2 ≥ bufsiz
      · rw [if_pos short, if_pos short]
        by_cases taken : granted (abi.sizeT ((bufsiz * 2 : Nat) : Int)) = true
        · rw [if_pos taken, if_pos taken, List.forall_mem_cons]
          by_cases fits : bufsiz * 2 < abi.sizeMod
          · have even := sizeMod_even abi
            rw [sizeT_of_lt fits, ih (bufsiz * 2) (ptr + 1) (by omega) (by omega)]
            exact (and_iff_right fits).symm
          · have wrapped := sizeT_wrapped small (by omega)
            exact iff_of_false (storesLoop_outside ended (by omega)) fun sizes => fits sizes.1
        · rw [if_neg taken, if_neg taken]
          exact iff_of_true storesInside_nil (List.forall_mem_nil _)
      · rw [if_neg short, if_neg short]
        exact ih bufsiz (ptr + 1) (by omega) small

theorem not_delimited_nil : ¬ Delimited delimiter [] := by
  rintro ⟨c, member, same⟩
  cases member

theorem delimited_cons_other {c : UInt8} (other : ¬ (c.toNat : Int) = delimiter)
    (rest : List UInt8) : Delimited delimiter (c :: rest) ↔ Delimited delimiter rest := by
  simp [Delimited, other]

theorem two_lt_sizeMod (abi : Abi) : 2 * 2 + 1 < abi.sizeMod := by
  cases abi <;> decide

theorem storesLoop_pair_iff (stream : List UInt8) :
    StoresInside (storesLoop abi granted delimiter stream 2 1) ↔
      (Delimited delimiter stream → charactersRead delimiter stream ≠ 1) ∧
        ∀ size ∈ sizesTaken abi granted 2 1 (charactersRead delimiter stream),
          size < abi.sizeMod := by
  have small := two_lt_sizeMod abi
  cases stream with
  | nil =>
      rw [charactersRead, sizesTaken_last _ _ _ (Nat.zero_le 1)]
      exact iff_of_true storesInside_nil
        ⟨fun delimited => absurd delimited not_delimited_nil, List.forall_mem_nil _⟩
  | cons c rest =>
      rw [storesLoop, storesInside_cons, charactersRead]
      by_cases same : (c.toNat : Int) = delimiter
      · rw [if_pos same, if_pos same, storesInside_cons]
        refine iff_of_false (fun inside => absurd inside.2.1 (Nat.lt_irrefl 2)) fun kept => ?_
        exact kept.1 ⟨c, List.mem_cons_self, same⟩ rfl
      rw [if_neg same, if_neg same]
      have unended : Delimited delimiter (c :: rest) → charactersRead delimiter rest + 1 ≠ 1 := by
        rw [delimited_cons_other same]
        rintro ⟨found, member, equal⟩
        have more := charactersRead_pos delimiter (List.ne_nil_of_mem member)
        omega
      have short : 1 + 1 + 2 ≥ 2 := by decide
      rw [and_iff_right unended, and_iff_right Nat.one_lt_two, if_pos short]
      dsimp only
      have grown : abi.sizeT ((2 * 2 : Nat) : Int) = 2 * 2 := sizeT_of_lt (by omega)
      by_cases ended : rest = []
      · rw [ended, charactersRead, sizesTaken_last _ _ _ (Nat.le_refl 1)]
        refine iff_of_true ?_ (List.forall_mem_nil _)
        split
        · exact storesInside_nil
        · exact storesInside_nil
      rw [sizesTaken_succ abi granted _ _ _ (charactersRead_pos delimiter ended), if_pos short, grown]
      by_cases taken : granted (2 * 2) = true
      · rw [if_pos taken, if_pos taken, List.forall_mem_cons,
          storesLoop_inside_iff rest (2 * 2) (1 + 1) (by decide) small]
        exact (and_iff_right (by omega)).symm
      · rw [if_neg taken, if_neg taken]
        exact iff_of_true storesInside_nil (List.forall_mem_nil _)

theorem storesLoop_single_iff (stream : List UInt8) :
    StoresInside (storesLoop abi granted delimiter stream 1 0) ↔
      StoreGuard abi granted delimiter stream 1 := by
  have small := two_lt_sizeMod abi
  have grown : abi.sizeT ((1 * 2 : Nat) : Int) = 1 * 2 := sizeT_of_lt (by omega)
  cases stream with
  | nil =>
      refine iff_of_true storesInside_nil
        ⟨fun _ delimited => absurd delimited not_delimited_nil, ?_⟩
      rw [charactersRead, sizesTaken_last _ _ _ (Nat.zero_le 1)]
      exact List.forall_mem_nil _
  | cons c rest =>
      rw [storesLoop, storesInside_cons]
      by_cases same : (c.toNat : Int) = delimiter
      · rw [if_pos same, storesInside_cons]
        refine iff_of_false (fun inside => absurd inside.2.1 (Nat.lt_irrefl 1)) fun guarded => ?_
        have read : charactersRead delimiter (c :: rest) = 1 := by
          rw [charactersRead, if_pos same]
        exact (guarded.terminator rfl ⟨c, List.mem_cons_self, same⟩).1 read
      have read : charactersRead delimiter (c :: rest) = charactersRead delimiter rest + 1 := by
        rw [charactersRead, if_neg same]
      have short : 0 + 1 + 2 ≥ 1 := by decide
      rw [if_neg same, and_iff_right Nat.zero_lt_one, if_pos short]
      dsimp only
      rw [grown]
      by_cases ended : rest = []
      · rw [ended] at read ⊢
        refine iff_of_true ?_ ⟨fun _ delimited => ?_, ?_⟩
        · split
          · exact storesInside_nil
          · exact storesInside_nil
        · rw [delimited_cons_other same] at delimited
          exact absurd delimited not_delimited_nil
        · rw [read, charactersRead, sizesTaken_last _ _ _ (Nat.le_refl 1)]
          exact List.forall_mem_nil _
      have more := charactersRead_pos delimiter ended
      have sizes := sizesTaken_succ abi granted 1 0 _ more
      rw [if_pos short, grown] at sizes
      by_cases taken : granted (1 * 2) = true
      · rw [if_pos taken, storesLoop_pair_iff]
        rw [if_pos taken] at sizes
        constructor
        · rintro ⟨terminated, fits⟩
          refine ⟨fun _ delimited => ⟨?_, fun two => ?_⟩, ?_⟩
          · omega
          · rw [delimited_cons_other same] at delimited
            exact absurd (by omega) (terminated delimited)
          · rw [read, sizes, List.forall_mem_cons]
            exact ⟨by omega, fits⟩
        · intro guarded
          have fits := guarded.sizes
          rw [read, sizes, List.forall_mem_cons] at fits
          refine ⟨fun delimited one => ?_, fits.2⟩
          have refused := (guarded.terminator rfl ((delimited_cons_other same rest).mpr
            delimited)).2 (by omega)
          rw [taken] at refused
          cases refused
      · rw [if_neg taken]
        rw [if_neg taken] at sizes
        refine iff_of_true storesInside_nil ⟨fun _ delimited => ⟨by omega, fun two => ?_⟩, ?_⟩
        · exact Bool.eq_false_iff.mpr taken
        · rw [read, sizes]
          exact List.forall_mem_nil _

theorem storeGuard_iff {stream : List UInt8} {bufsiz : Nat} (positive : 0 < bufsiz)
    (small : bufsiz + 1 < abi.sizeMod) :
    StoresInside (storesLoop abi granted delimiter stream bufsiz 0) ↔
      StoreGuard abi granted delimiter stream bufsiz := by
  by_cases single : bufsiz = 1
  · rw [single]
    exact storesLoop_single_iff stream
  · rw [storesLoop_inside_iff stream bufsiz 0 (by omega) small]
    constructor
    · exact fun sizes => ⟨fun one => absurd one single, sizes⟩
    · exact fun guarded => guarded.sizes

end Loop

/-! ## The faults of the loop -/

theorem returned_ne_fault {abi : Abi} (result : Result abi) : Outcome.returned result ≠ .fault := by
  intro same
  cases same

theorem getdelimLoop_fault_iff {abi : Abi} (allocator : Allocator) (delimiter : UInt8) :
    ∀ stream (memory : Memory abi) ptr,
      getdelimLoop allocator delimiter stream memory ptr ≠ .fault ↔
        StoresInside (storesLoop abi allocator.reallocGranted delimiter.toNat stream
          memory.val.length ptr) := by
  intro stream
  induction stream with
  | nil =>
      intro memory ptr
      exact iff_of_true (returned_ne_fault _) storesInside_nil
  | cons c rest ih =>
      intro memory ptr
      rw [getdelimLoop, storesLoop, storesInside_cons]
      by_cases outside : memory.val.length ≤ ptr
      · rw [if_pos outside]
        exact iff_of_false (fun kept => kept rfl) fun inside => Nat.not_lt.mpr outside inside.1
      rw [if_neg outside, and_iff_right (Nat.not_le.mp outside)]
      dsimp only
      by_cases same : c = delimiter
      · subst same
        rw [if_pos rfl, store_length]
        simp only [if_true]
        rw [storesInside_cons]
        by_cases full : memory.val.length ≤ ptr + 1
        · rw [if_pos full]
          exact iff_of_false (fun kept => kept rfl) fun inside => Nat.not_lt.mpr full inside.1
        · rw [if_neg full]
          exact iff_of_true (returned_ne_fault _) ⟨Nat.not_le.mp full, storesInside_nil⟩
      have other : ¬ (c.toNat : Int) = delimiter.toNat := by
        intro equal
        exact same (UInt8.toNat_inj.mp (by omega))
      rw [if_neg same, if_neg other, store_length]
      by_cases short : ptr + 1 + 2 ≥ memory.val.length
      · rw [if_pos short, if_pos short]
        by_cases taken : allocator.reallocGranted
            (abi.sizeT ((memory.val.length * 2 : Nat) : Int)) = true
        · rw [if_pos taken, if_pos taken, ih, realloc_length]
        · rw [if_neg taken, if_neg taken]
          exact iff_of_true (returned_ne_fault _) storesInside_nil
      · rw [if_neg short, if_neg short, ih, store_length]

def CallStoreGuard {abi : Abi} (allocator : Allocator) (lineBuf : LineBuf abi) (delimiter : Int)
    (stream : List UInt8) : Prop :=
  ∀ memory, lineBuf.obtain allocator = some memory →
    StoreGuard abi allocator.reallocGranted delimiter stream memory.val.length

theorem obtain_representable {abi : Abi} {lineBuf : LineBuf abi} {allocator : Allocator}
    {memory : Memory abi} (representable : lineBuf.Representable)
    (obtained : lineBuf.obtain allocator = some memory) :
    0 < memory.val.length ∧ memory.val.length + 1 < abi.sizeMod := by
  unfold LineBuf.obtain at obtained
  split at obtained
  next c bytes fits =>
    cases obtained
    exact ⟨Nat.succ_pos _, representable⟩
  next =>
    split at obtained
    · rw [← Option.some.inj obtained]
      simp only [Allocator.malloc, List.length_map, List.length_range, bufsizDefault]
      cases abi <;> decide
    · cases obtained

/-- Every store of a call is inside the buffer exactly when its guard holds, and so the call of
the model goes on to return. -/
theorem getdelim_storesInside_iff {abi : Abi} (allocator : Allocator) (lineBuf : LineBuf abi)
    (delimiter : Int) (stream : List UInt8) (representable : lineBuf.Representable) :
    (StoresInside (getdelimStores allocator lineBuf delimiter stream) ↔
      CallStoreGuard allocator lineBuf delimiter stream) ∧
    ∀ byte : UInt8, delimiter = byte.toNat →
      (getdelim allocator lineBuf byte stream ≠ .fault ↔
        CallStoreGuard allocator lineBuf delimiter stream) := by
  unfold getdelimStores getdelim CallStoreGuard
  cases obtained : lineBuf.obtain allocator with
  | none =>
      have unused : ∀ memory : Memory abi, none = some memory →
          StoreGuard abi allocator.reallocGranted delimiter stream memory.val.length := by
        intro memory impossible
        cases impossible
      exact ⟨iff_of_true storesInside_nil unused,
        fun byte same => iff_of_true (returned_ne_fault _) unused⟩
  | some memory =>
      obtain ⟨positive, small⟩ := obtain_representable representable obtained
      have guarded : (∀ other, some memory = some other →
          StoreGuard abi allocator.reallocGranted delimiter stream other.val.length) ↔
          StoreGuard abi allocator.reallocGranted delimiter stream memory.val.length := by
        constructor
        · exact fun all => all memory rfl
        · rintro one other same
          cases same
          exact one
      rw [guarded]
      refine ⟨storeGuard_iff positive small, fun byte same => ?_⟩
      dsimp only
      rw [getdelimLoop_fault_iff, ← same]
      exact storeGuard_iff positive small

theorem getdelim_storesInside_lines :
    StoresInside (getdelimStores staleAllocator staleBuf 10 [72, 105, 33, 33, 33, 10]) ∧
      getdelim staleAllocator staleBuf 10 [72, 105, 33, 33, 33, 10] ≠ .fault := by
  obtain ⟨stores, faults⟩ :=
    getdelim_storesInside_iff staleAllocator staleBuf 10 [72, 105, 33, 33, 33, 10] (by decide)
  have guarded : CallStoreGuard staleAllocator staleBuf 10 [72, 105, 33, 33, 33, 10] := by
    intro memory obtained
    cases obtained
    exact ⟨by rintro ⟨⟩, by decide⟩
  exact ⟨stores.mpr guarded, (faults 10 rfl).mpr guarded⟩

def singleBuf : LineBuf .lp64 := .space ⟨[65], by decide⟩

theorem getdelim_overruns_singleByte :
    ¬ ∀ (lineBuf : LineBuf .lp64) (delimiter : Int) (stream : List UInt8),
      lineBuf.Representable →
        StoresInside (getdelimStores staleAllocator lineBuf delimiter stream) := by
  intro always
  have stored := always singleBuf 10 [10] (by decide) (1, 1) (by decide)
  exact absurd stored (by decide)

end LegacySupport.Getdelim
