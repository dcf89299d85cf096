import LegacySupport.FmemopenCore
import LegacySupport.Runs

/-!
Memory safety of the callbacks of a memory stream, over whole runs. A read that starts beyond
the data is not clipped, and with a 32-bit `size_t` a seek to a negative position passes the
check; everything else keeps the offset and the data inside the buffer.
-/

namespace LegacySupport.Fmemopen

open CInt Runs

/-- What a callback must not do: leave the buffer with its offset, its data or its copying,
or deliver what lies beyond the data. -/
structure CallbackSafe (abi : Abi) (ck : Cookie) (callback : Callback) : Prop where
  offBound : (perform abi ck callback).cookie.off ≤ (perform abi ck callback).cookie.size
  lenBound : (perform abi ck callback).cookie.len ≤ (perform abi ck callback).cookie.size
  inside : ∀ region ∈ (perform abi ck callback).delivered ++ (perform abi ck callback).accessed,
    region.Within ck.size
  beforeLen : ∀ region ∈ (perform abi ck callback).delivered, region.Within ck.len

structure InBounds (abi : Abi) (ck : Cookie) : Prop where
  offBound : ck.off ≤ ck.size
  lenBound : ck.len ≤ ck.size
  fits : ck.size < abi.sizeMod

def CountFits (abi : Abi) (nbytes : Int32) (available : Nat) : Prop :=
  abi = .ilp32 ∨ 0 ≤ nbytes.toInt ∨ available % 2 ^ 32 < 2 ^ 31 ∨ 2 ^ 64 - 2 ^ 31 ≤ available

def ReadGuard (abi : Abi) (ck : Cookie) (nbytes : Int32) : Prop :=
  if ck.off ≤ ck.len then CountFits abi nbytes (ck.len - ck.off)
  else nbytes.toInt = 0 ∨
    abi = .lp64 ∧ nbytes.toInt < 0 ∧ (ck.off - ck.len) % 2 ^ 32 = 0

def SeekGuard (abi : Abi) (ck : Cookie) (offset : Int64) (whence : Int32) : Prop :=
  abi = .lp64 ∨
    (whence = seekSet → ck.size < offset.toInt ∨ offset.toInt % 2 ^ 32 ≤ ck.size) ∧
    (whence = seekCur →
      ck.size < ck.off + offset.toInt ∧ ck.off + offset.toInt < 2 ^ 63 ∨
        (ck.off + offset.toInt) % 2 ^ 32 ≤ ck.size)

def Guarded (abi : Abi) (ck : Cookie) : Callback → Prop
  | .read nbytes => ReadGuard abi ck nbytes
  | .write nbytes _ => CountFits abi nbytes (ck.size - ck.off)
  | .seek offset whence => SeekGuard abi ck offset whence

/-! ## Counts -/

theorem sizeT_sub {abi : Abi} {limit off : Nat} (ordered : off ≤ limit)
    (fits : limit < abi.sizeMod) : abi.sizeT (limit - off) = limit - off := by
  have difference : (limit : Int) - off = ((limit - off : Nat) : Int) := by omega
  rw [difference]
  exact sizeT_of_lt (by omega)

theorem sizeT_pred {abi : Abi} {limit : Nat} (positive : 0 < limit) (fits : limit < abi.sizeMod) :
    abi.sizeT ((limit : Int) - 1) = limit - 1 :=
  sizeT_sub positive fits

theorem sizeT_add {abi : Abi} (off : Nat) (count : Int)
    (fits : off + abi.sizeT count < abi.sizeMod) :
    abi.sizeT (off + count) = off + abi.sizeT count := by
  cases abi <;> simp at fits ⊢ <;> omega

theorem clip_range (abi : Abi) (nbytes : Int32) (available : Nat) :
    -2147483648 ≤ clip abi nbytes available ∧ clip abi nbytes available < 2147483648 := by
  have lower := nbytes.le_toInt
  have upper := nbytes.toInt_lt
  simp only [clip, int_eq]
  split <;> omega

theorem clip_eq_zero_iff (abi : Abi) (nbytes : Int32) (available : Nat) :
    clip abi nbytes available = 0 ↔ abi.sizeT (clip abi nbytes available) = 0 := by
  have range := clip_range abi nbytes available
  cases abi <;> simp <;> omega

theorem clip_count_le_iff {abi : Abi} {nbytes : Int32} {available : Nat}
    (fits : available < abi.sizeMod) :
    abi.sizeT (clip abi nbytes available) ≤ available ↔ CountFits abi nbytes available := by
  have lower := nbytes.le_toInt
  have upper := nbytes.toInt_lt
  simp only [clip, CountFits, int_eq]
  cases abi <;> simp at fits ⊢ <;> split <;> omega

theorem clip_beyond_eq_zero_iff {abi : Abi} {len off : Nat} (nbytes : Int32) (beyond : len < off)
    (fits : off < abi.sizeMod) :
    clip abi nbytes (abi.sizeT (len - off)) = 0 ↔
      nbytes.toInt = 0 ∨ abi = .lp64 ∧ nbytes.toInt < 0 ∧ (off - len) % 2 ^ 32 = 0 := by
  have lower := nbytes.le_toInt
  have upper := nbytes.toInt_lt
  simp only [clip, int_eq]
  cases abi <;> simp at fits ⊢ <;> split <;> omega

theorem safe_of_unchanged {abi : Abi} {ck : Cookie} (kept : InBounds abi ck) {callback : Callback}
    {value : Int} (unchanged : perform abi ck callback = ⟨ck, value, [], []⟩) :
    CallbackSafe abi ck callback where
  offBound := by rw [unchanged]; exact kept.offBound
  lenBound := by rw [unchanged]; exact kept.lenBound
  inside := by simp [unchanged]
  beforeLen := by simp [unchanged]

/-! ## Reading -/

theorem read_safe_iff {abi : Abi} {ck : Cookie} (kept : InBounds abi ck) (nbytes : Int32) :
    CallbackSafe abi ck (.read nbytes) ↔ ReadGuard abi ck nbytes := by
  have offBound := kept.offBound
  have lenBound := kept.lenBound
  have fits := kept.fits
  by_cases zero : clip abi nbytes (abi.sizeT (ck.len - ck.off)) = 0
  · have nothing : perform abi ck (.read nbytes) = ⟨ck, 0, [], []⟩ := by
      simp [perform, fmemopenRead, zero]
    refine iff_of_true (safe_of_unchanged kept nothing) ?_
    simp only [ReadGuard]
    split
    next within =>
      have few : ck.len - ck.off < abi.sizeMod := by omega
      rw [sizeT_sub within (by omega)] at zero
      exact (clip_count_le_iff few).mp (by rw [(clip_eq_zero_iff _ _ _).mp zero]; omega)
    next beyond =>
      exact (clip_beyond_eq_zero_iff nbytes (by omega) (by omega)).mp zero
  · have copies := mt (clip_eq_zero_iff _ _ _).mpr zero
    have done : perform abi ck (.read nbytes) =
        { cookie := { ck with
            off := abi.sizeT (ck.off + clip abi nbytes (abi.sizeT (ck.len - ck.off))) }
          value := clip abi nbytes (abi.sizeT (ck.len - ck.off))
          delivered := [⟨ck.off, abi.sizeT (clip abi nbytes (abi.sizeT (ck.len - ck.off)))⟩]
          accessed := [] } := by
      simp [perform, fmemopenRead, zero]
    have safe : CallbackSafe abi ck (.read nbytes) ↔
        ck.off + abi.sizeT (clip abi nbytes (abi.sizeT (ck.len - ck.off))) ≤ ck.len := by
      constructor
      · intro held
        have before := held.beforeLen
        rw [done] at before
        rcases before _ (List.mem_singleton.mpr rfl) with nothing | inside
        · exact absurd nothing copies
        · exact inside
      · intro inside
        refine ⟨?_, ?_, ?_, ?_⟩
        · rw [done]
          simp only
          rw [sizeT_add _ _ (by omega)]
          omega
        · rw [done]; exact lenBound
        · rw [done]
          simp only [List.append_nil, List.mem_singleton, forall_eq]
          exact Or.inr (by simp only; omega)
        · rw [done]
          simp only [List.mem_singleton, forall_eq]
          exact Or.inr inside
    rw [safe]
    simp only [ReadGuard]
    split
    next within =>
      rw [sizeT_sub within (by omega), ← clip_count_le_iff (by omega)]
      omega
    next beyond =>
      refine iff_of_false (by omega) fun nothing => zero ?_
      exact (clip_beyond_eq_zero_iff nbytes (by omega) (by omega)).mpr nothing

/-! ## Writing -/

@[simp] theorem copyIn_size (ck : Cookie) (data : Nat → UInt8) (start count : Nat) :
    (ck.copyIn data start count).size = ck.size := rfl

@[simp] theorem copyIn_off (ck : Cookie) (data : Nat → UInt8) (start count : Nat) :
    (ck.copyIn data start count).off = ck.off := rfl

@[simp] theorem copyIn_len (ck : Cookie) (data : Nat → UInt8) (start count : Nat) :
    (ck.copyIn data start count).len = ck.len := rfl

@[simp] theorem advance_size (ck : Cookie) (off : Nat) : (ck.advance off).size = ck.size := rfl

@[simp] theorem advance_off (ck : Cookie) (off : Nat) : (ck.advance off).off = off := rfl

@[simp] theorem advance_len (ck : Cookie) (off : Nat) :
    (ck.advance off).len = if off > ck.len then off else ck.len := rfl

theorem write_spec {abi : Abi} (ck : Cookie) (nbytes : Int32) (data : Nat → UInt8) {count : Int}
    (clipped : clip abi nbytes (abi.sizeT (ck.size - ck.off)) = count) (copies : count ≠ 0) :
    let off := abi.sizeT (ck.off + count)
    let done := fmemopenWrite abi ck nbytes data
    done.cookie.size = ck.size ∧ done.cookie.off = off ∧
      done.cookie.len = (if off > ck.len then off else ck.len) ∧ done.delivered = [] ∧
      ⟨ck.off, abi.sizeT count⟩ ∈ done.accessed ∧
      ∀ region ∈ done.accessed, region = ⟨ck.off, abi.sizeT count⟩ ∨
        region = ⟨abi.sizeT (off - 1), 1⟩ ∨ region = ⟨off, 1⟩ ∧ off < ck.size := by
  simp only [fmemopenWrite, clipped, if_neg copies]
  split
  next terminates =>
    have room : abi.sizeT (ck.off + count) < ck.size := terminates.2
    split <;> simp [room]
  next => simp

theorem write_safe_iff {abi : Abi} {ck : Cookie} (kept : InBounds abi ck) (nbytes : Int32)
    (data : Nat → UInt8) :
    CallbackSafe abi ck (.write nbytes data) ↔ CountFits abi nbytes (ck.size - ck.off) := by
  have offBound := kept.offBound
  have lenBound := kept.lenBound
  have fits := kept.fits
  have available := sizeT_sub offBound fits
  rw [← clip_count_le_iff (by omega)]
  by_cases zero : clip abi nbytes (abi.sizeT (ck.size - ck.off)) = 0
  · have nothing : perform abi ck (.write nbytes data) = ⟨ck, 0, [], []⟩ := by
      simp [perform, fmemopenWrite, zero]
    refine iff_of_true (safe_of_unchanged kept nothing) ?_
    rw [available] at zero
    rw [(clip_eq_zero_iff _ _ _).mp zero]
    omega
  · have copies := mt (clip_eq_zero_iff _ _ _).mpr zero
    obtain ⟨size, off, len, delivered, copied, regions⟩ := write_spec ck nbytes data rfl zero
    rw [available] at copies off len copied regions
    constructor
    · intro held
      have inside := held.inside ⟨ck.off, _⟩ (List.mem_append.mpr (Or.inr copied))
      rcases inside with nothing | inside
      · exact absurd nothing copies
      · simp only at inside
        omega
    · intro few
      have next : abi.sizeT (ck.off + clip abi nbytes (ck.size - ck.off)) =
          ck.off + abi.sizeT (clip abi nbytes (ck.size - ck.off)) := sizeT_add _ _ (by omega)
      rw [next] at off len regions
      refine ⟨?_, ?_, ?_, ?_⟩
      · simp only [perform, size, off]
        omega
      · simp only [perform, size, len]
        split <;> omega
      · simp only [perform, delivered, List.nil_append]
        intro region member
        rcases regions region member with same | same | ⟨same, room⟩
        · subst same
          exact Or.inr (by simp only; omega)
        · subst same
          refine Or.inr ?_
          simp only
          rw [sizeT_pred (by omega) (by omega)]
          omega
        · subst same
          exact Or.inr (by simp only; omega)
      · simp [perform, delivered]

/-! ## Seeking -/

theorem seek_safe_iff_offset {abi : Abi} {ck : Cookie} (kept : InBounds abi ck) (offset : Int64)
    (whence : Int32) :
    CallbackSafe abi ck (.seek offset whence) ↔
      ∀ moved, fmemopenSeek abi ck offset whence = .ok moved → moved.off ≤ ck.size := by
  have frame : ∀ moved, fmemopenSeek abi ck offset whence = .ok moved →
      moved.size = ck.size ∧ moved.len = ck.len := by
    intro moved found
    simp only [fmemopenSeek] at found
    split_ifs at found <;> cases found <;> exact ⟨rfl, rfl⟩
  cases result : fmemopenSeek abi ck offset whence with
  | error reason =>
      have unchanged : perform abi ck (.seek offset whence) = ⟨ck, -1, [], []⟩ := by
        simp [perform, result]
      exact iff_of_true (safe_of_unchanged kept unchanged) (by simp)
  | ok moved =>
      obtain ⟨size, len⟩ := frame moved result
      have done : perform abi ck (.seek offset whence) = ⟨moved, int64 moved.off, [], []⟩ := by
        simp [perform, result]
      constructor
      · intro held next found
        have bound := held.offBound
        rw [done, size] at bound
        cases found
        exact bound
      · intro bound
        refine ⟨?_, ?_, ?_, ?_⟩
        · rw [done, size]
          exact bound moved rfl
        · rw [done, size, len]
          exact kept.lenBound
        · simp [done]
        · simp [done]

@[simp] theorem exceeds_ilp32 (position : Int) (limit : Nat) :
    exceeds .ilp32 position limit = false ↔ position ≤ limit := by
  simp [exceeds]

@[simp] theorem exceeds_lp64 (position : Int) (limit : Nat) :
    exceeds .lp64 position limit = false ↔ position % 18446744073709551616 ≤ limit := by
  simp only [exceeds, toUnsigned, gt_iff_lt, decide_eq_false_iff_not]
  omega

theorem accepted_iff (abi : Abi) (position : Int) (limit : Nat) :
    (exceeds abi position limit = false → abi.sizeT position ≤ limit) ↔
      abi = .lp64 ∨ limit < position ∨ position % 2 ^ 32 ≤ limit := by
  cases abi with
  | ilp32 =>
      simp only [exceeds_ilp32, sizeT_ilp32, reduceCtorEq, false_or]
      omega
  | lp64 =>
      simp only [exceeds_lp64, sizeT_lp64, true_or, iff_true]
      omega

theorem accepted_fromEnd {abi : Abi} {len : Nat} {offset : Int64} (fits : len < abi.sizeMod)
    (backward : ¬ offset > 0) (accepted : exceeds abi (-offset).toInt len = false) :
    abi.sizeT (sumOff abi len offset) ≤ len := by
  have lower := offset.le_toInt
  have nonpos : offset.toInt ≤ 0 := by
    simpa [Int64.lt_iff_toInt_lt] using backward
  have negated : (-offset).toInt = int64 (-offset.toInt) := by
    rw [Int64.toInt_neg, Int.bmod_def, int64_eq]
    split <;> omega
  rw [negated] at accepted
  cases abi with
  | ilp32 =>
      simp only [exceeds_ilp32, int64_eq] at accepted
      simp only [sumOff, sizeT_ilp32, int64_eq]
      simp only [sizeMod_ilp32] at fits
      omega
  | lp64 =>
      simp only [exceeds_lp64, int64_eq] at accepted
      simp only [sumOff, toUnsigned, sizeT_lp64]
      simp only [sizeMod_lp64] at fits
      omega

theorem seek_safe_iff {abi : Abi} {ck : Cookie} (kept : InBounds abi ck) (offset : Int64)
    (whence : Int32) :
    CallbackSafe abi ck (.seek offset whence) ↔ SeekGuard abi ck offset whence := by
  have offBound := kept.offBound
  have lenBound := kept.lenBound
  have fits := kept.fits
  rw [seek_safe_iff_offset kept]
  simp only [fmemopenSeek, SeekGuard]
  by_cases set : whence = seekSet
  · subst set
    have other : seekSet ≠ seekCur := by decide
    have accepted := accepted_iff abi offset.toInt ck.size
    simp only [if_true, other, false_implies, and_true, true_implies]
    rw [← accepted]
    cases exceeds abi offset.toInt ck.size <;> simp
  by_cases cur : whence = seekCur
  · subst cur
    have accepted := accepted_iff abi (sumOff abi ck.off offset) ck.size
    simp only [if_true, set, false_implies, true_and, true_implies]
    have sum : (abi = .lp64 ∨ ck.size < sumOff abi ck.off offset ∨
        sumOff abi ck.off offset % 2 ^ 32 ≤ ck.size) ↔
        (abi = .lp64 ∨ ck.size < ck.off + offset.toInt ∧ ck.off + offset.toInt < 2 ^ 63 ∨
          (ck.off + offset.toInt) % 2 ^ 32 ≤ ck.size) := by
      cases abi with
      | ilp32 =>
          have lower := offset.le_toInt
          have upper := offset.toInt_lt
          simp only [sizeMod_ilp32] at fits
          simp only [sumOff, int64_eq, reduceCtorEq, false_or]
          omega
      | lp64 => simp
    rw [← sum, ← accepted]
    cases exceeds abi (sumOff abi ck.off offset) ck.size <;> simp
  · simp only [set, cur, if_false, false_implies, and_true, or_true, iff_true]
    intro moved found
    split at found
    next fromEnd =>
      split at found
      · cases found
      next accepted =>
        cases found
        rw [Bool.or_eq_true, decide_eq_true_eq, not_or, Bool.not_eq_true] at accepted
        have inside := accepted_fromEnd (by omega) accepted.1 accepted.2
        simp only
        omega
    next => cases found

/-! ## Runs -/

theorem callbackSafe_iff {abi : Abi} (ck : Cookie) (callback : Callback) (kept : InBounds abi ck) :
    CallbackSafe abi ck callback ↔ Guarded abi ck callback := by
  cases callback with
  | read nbytes => exact read_safe_iff kept nbytes
  | write nbytes data => exact write_safe_iff kept nbytes data
  | seek offset whence => exact seek_safe_iff kept offset whence

theorem perform_size (abi : Abi) (ck : Cookie) (callback : Callback) :
    (perform abi ck callback).cookie.size = ck.size := by
  cases callback with
  | read nbytes =>
      simp only [perform, fmemopenRead]
      split <;> rfl
  | write nbytes data =>
      by_cases zero : clip abi nbytes (abi.sizeT (ck.size - ck.off)) = 0
      · simp [perform, fmemopenWrite, zero]
      · exact (write_spec ck nbytes data rfl zero).1
  | seek offset whence =>
      simp only [perform, fmemopenSeek]
      split_ifs <;> rfl

theorem inBounds_perform {abi : Abi} (ck : Cookie) (callback : Callback) (kept : InBounds abi ck)
    (guarded : Guarded abi ck callback) : InBounds abi (perform abi ck callback).cookie := by
  have safe := (callbackSafe_iff ck callback kept).mpr guarded
  exact ⟨safe.offBound, safe.lenBound, by rw [perform_size]; exact kept.fits⟩

theorem strnlen_le {size : Nat} (buf : Vector UInt8 size) : strnlen buf ≤ size := by
  have shorter := (List.takeWhile_prefix (p := (· ≠ 0)) (l := buf.toList)).length_le
  simpa [strnlen] using shorter

theorem openCookie_inBounds {abi : Abi} (parser : ModeParser) (args : OpenArgs abi)
    {flags : UInt32} (accepted : parser.sflags args.mode = some flags) (garbageLen : Nat)
    (own : Bool) (memory : Vector UInt8 args.size) :
    InBounds abi (openCookie args garbageLen own memory) := by
  have fits := args.fits
  rcases parser.leading args.mode flags accepted with lead | lead | lead
  · simp only [openCookie, lead]
    exact ⟨Nat.zero_le _, Nat.le_refl _, fits⟩
  · simp only [openCookie, lead]
    exact ⟨Nat.zero_le _, Nat.zero_le _, fits⟩
  · simp only [openCookie, lead]
    exact ⟨strnlen_le _, strnlen_le _, fits⟩

theorem fmemopen_inBounds {abi : Abi} {parser : ModeParser} {args : OpenArgs abi}
    {env : OpenEnv args.size} {stream : Stream}
    (opened : fmemopen parser args env = .ok stream) : InBounds abi stream.cookie := by
  unfold fmemopen at opened
  split at opened
  · cases opened
  split at opened
  · cases opened
  next flags accepted =>
    split at opened
    · cases opened
    split at opened
    · cases opened
    simp only at opened
    split at opened
    · cases opened
    next memory granted =>
      split at opened
      · cases opened
      cases opened
      exact openCookie_inBounds parser args accepted _ _ _

def fopenModes : ModeParser where
  sflags
    | 'r' :: rest => some (if rest.contains '+' then 0x2 else 0x0)
    | 'w' :: rest => some (if rest.contains '+' then 0x602 else 0x601)
    | 'a' :: rest => some (if rest.contains '+' then 0x20a else 0x209)
    | _ => none
  leading mode flags accepted := by
    split at accepted <;> simp_all

/-- Every stream starts inside its buffer, and its runs stay safe exactly while every callback
is guarded. -/
theorem fmemopen_safe_iff {abi : Abi} {parser : ModeParser} {args : OpenArgs abi}
    {env : OpenEnv args.size} {stream : Stream}
    (opened : fmemopen parser args env = .ok stream) (callbacks : List Callback) :
    (stream.cookie.off ≤ stream.cookie.size ∧ stream.cookie.len ≤ stream.cookie.size) ∧
      (Throughout (fun ck callback => (perform abi ck callback).cookie) (CallbackSafe abi)
          stream.cookie callbacks ↔
        Throughout (fun ck callback => (perform abi ck callback).cookie) (Guarded abi)
          stream.cookie callbacks) := by
  have initial := fmemopen_inBounds opened
  exact ⟨⟨initial.offBound, initial.lenBound⟩,
    throughout_iff inBounds_perform callbackSafe_iff initial callbacks⟩

def updateArgs : OpenArgs .lp64 where
  size := 8
  fits := by decide
  buf := some (Vector.replicate 8 65)
  mode := ['w', '+']

def grantedEnv (size : Nat) : OpenEnv size := ⟨true, 0, some (Vector.replicate size 0), true⟩

def updateStream : Stream where
  readable := true
  writable := true
  append := false
  cookie := ⟨8, (Vector.replicate 8 65).set 0 0, false, false, 0, 0⟩

theorem fmemopen_safe_update :
    fmemopen fopenModes updateArgs (grantedEnv 8) = .ok updateStream ∧
      (updateStream.cookie.off ≤ updateStream.cookie.size ∧
        updateStream.cookie.len ≤ updateStream.cookie.size) ∧
      Throughout (fun ck callback => (perform .lp64 ck callback).cookie) (CallbackSafe .lp64)
        updateStream.cookie [.write 3 fun _ => 66, .seek 1 seekSet, .read 9] := by
  obtain ⟨inside, safe⟩ := @fmemopen_safe_iff .lp64 fopenModes updateArgs (grantedEnv 8)
    updateStream rfl [.write 3 fun _ => 66, .seek 1 seekSet, .read 9]
  refine ⟨rfl, inside, safe.mpr ⟨Or.inr (Or.inl (by decide)), Or.inl rfl, ?_, True.intro⟩⟩
  change ReadGuard .lp64 _ 9
  rw [ReadGuard, if_pos (by decide)]
  exact Or.inr (Or.inl (by decide))

/-- After seeking to byte four of an empty stream, a read delivers that byte. -/
theorem fmemopen_delivers_beyond_data :
    ¬ ∀ (abi : Abi) (parser : ModeParser) (args : OpenArgs abi) (env : OpenEnv args.size)
        (stream : Stream), fmemopen parser args env = .ok stream →
      ∀ callbacks : List Callback,
        Throughout (fun ck callback => (perform abi ck callback).cookie) (CallbackSafe abi)
          stream.cookie callbacks := by
  intro always
  have run := always .lp64 fopenModes updateArgs (grantedEnv 8) updateStream rfl
    [.seek 4 seekSet, .read 1]
  rcases run.2.1.beforeLen ⟨4, 1⟩ (by decide) with nothing | inside
  · exact absurd nothing (by decide)
  · exact absurd inside (by decide)

end LegacySupport.Fmemopen
