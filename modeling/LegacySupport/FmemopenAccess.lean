import LegacySupport.FmemopenEdits

/-!
What the access mode of a memory stream is worth. `funopen` is given a write callback whatever
the mode, since the flag tested for it is zero.
-/

namespace LegacySupport.Fmemopen

open CInt Runs

def oRdonly : UInt32 := 0
def oAccmode : UInt32 := 3

/-- The C library takes only modes that start with an `r` as read-only. -/
def ModeParser.ReadOnlyLead (parser : ModeParser) : Prop :=
  ∀ mode flags, parser.sflags mode = some flags → flags &&& oAccmode = oRdonly →
    mode.head? = some 'r'

/-- What stdio does with a stream that has no buffer of its own: it calls back only what
`funopen` was given, and seeks to the end before it appends. -/
def Stream.act (abi : Abi) (stream : Stream) (ck : Cookie) : Callback → Done
  | .read nbytes =>
      if stream.readable then perform abi ck (.read nbytes) else ⟨ck, -1, [], []⟩
  | .write nbytes data =>
      if stream.writable then
        let ck := if stream.append then (perform abi ck (.seek 0 seekEnd)).cookie else ck
        perform abi ck (.write nbytes data)
      else ⟨ck, -1, [], []⟩
  | .seek offset whence => perform abi ck (.seek offset whence)

def Promised (abi : Abi) (ck : Cookie) : Callback → Prop
  | .read nbytes => 0 ≤ nbytes.toInt
  | .write nbytes _ => 0 ≤ nbytes.toInt
  | .seek offset whence => SeekGuard abi ck offset whence

def Untouched {size : Nat} (memory : Vector UInt8 size) (ck : Cookie) : Prop :=
  ∀ i, ck.byteAt i = memory.toList.getD i 0

/-- A write accepts no bytes, or the bytes that are there already, and stores no terminator over
another byte. -/
def StoresNothingNew (ck : Cookie) : Callback → Prop
  | .write nbytes data =>
      acceptedCount ck nbytes = 0 ∨
        (∀ i < acceptedCount ck nbytes, data i = ck.byteAt (ck.off + i)) ∧
          (ck.bin = true ∨ ck.size ≤ ck.off + acceptedCount ck nbytes ∨
            data (acceptedCount ck nbytes - 1) = 0 ∨
            ck.byteAt (ck.off + acceptedCount ck nbytes) = 0)
  | _ => True

/-! ## Opening -/

theorem fmemopen_stream {abi : Abi} {parser : ModeParser} {args : OpenArgs abi}
    {env : OpenEnv args.size} {stream : Stream} {flags : UInt32}
    (opened : fmemopen parser args env = .ok stream)
    (accepted : parser.sflags args.mode = some flags) :
    stream.readable = decide (flags &&& oWronly = 0) ∧ stream.writable = true ∧
      stream.append = (args.mode.head? == some 'a') ∧
      (flags &&& oRdwr = 0 → args.buf.isSome) ∧
      ∃ memory, (if args.buf.isNone then env.bufGranted else args.buf) = some memory ∧
        stream.cookie = openCookie args env.garbageLen args.buf.isNone memory := by
  unfold fmemopen at opened
  rw [accepted] at opened
  split at opened
  · cases opened
  dsimp only at opened
  split at opened
  · cases opened
  next given =>
    split at opened
    · cases opened
    split at opened
    · cases opened
    next memory granted =>
      split at opened
      · cases opened
      cases opened
      refine ⟨by simp, rfl, rfl, ?_, memory, granted, rfl⟩
      intro update
      simpa [update, Option.isSome_iff_ne_none] using given

theorem fmemopen_readOnly {abi : Abi} {parser : ModeParser} (lead : parser.ReadOnlyLead)
    {args : OpenArgs abi} {env : OpenEnv args.size} {stream : Stream} {flags : UInt32}
    (opened : fmemopen parser args env = .ok stream)
    (accepted : parser.sflags args.mode = some flags) (readOnly : flags &&& oAccmode = oRdonly) :
    ∃ memory, args.buf = some memory ∧ stream.append = false ∧
      Untouched memory stream.cookie ∧ stream.cookie.len = stream.cookie.size := by
  obtain ⟨-, -, append, given, memory, granted, cookie⟩ := fmemopen_stream opened accepted
  have leading := lead args.mode flags accepted readOnly
  have noUpdate : flags &&& oRdwr = 0 := by
    have split : flags &&& oRdwr = (flags &&& oAccmode) &&& oRdwr := by
      rw [UInt32.and_assoc]
      rfl
    rw [split, readOnly]
    rfl
  obtain ⟨buf, passed⟩ := Option.isSome_iff_exists.mp (given noUpdate)
  rw [passed] at granted cookie
  cases granted
  refine ⟨memory, passed, ?_, ?_, ?_⟩
  · rw [append, leading]
    rfl
  · intro i
    rw [cookie, openCookie, leading]
    rfl
  · rw [cookie, openCookie, leading]
    rfl

/-! ## One operation -/

theorem promised_guarded {abi : Abi} {ck : Cookie} (kept : InBounds abi ck)
    (full : ck.len = ck.size) (callback : Callback) (promised : Promised abi ck callback) :
    Guarded abi ck callback := by
  cases callback with
  | read nbytes =>
      have within : ck.off ≤ ck.len := by rw [full]; exact kept.offBound
      rw [Guarded, ReadGuard, if_pos within]
      exact Or.inr (Or.inl promised)
  | write nbytes data => exact Or.inr (Or.inl promised)
  | seek offset whence => exact promised

theorem write_untouched_iff {abi : Abi} {ck : Cookie} {nbytes : Int32} (data : Nat → UInt8)
    (fits : ck.size < abi.sizeMod) (editing : Editing ck (.write nbytes data)) :
    (∀ i, (fmemopenWrite abi ck nbytes data).cookie.byteAt i = ck.byteAt i) ↔
      StoresNothingNew ck (.write nbytes data) := by
  obtain ⟨offBound, nonneg⟩ := editing
  obtain ⟨-, -, -, -, bytes⟩ := write_result data offBound fits nonneg
  generalize (fmemopenWrite abi ck nbytes data).cookie = after at bytes ⊢
  have within : ck.off + acceptedCount ck nbytes ≤ ck.size := by
    unfold acceptedCount
    omega
  rw [StoresNothingNew]
  generalize acceptedCount ck nbytes = count at bytes within ⊢
  constructor
  · intro same
    by_cases none : count = 0
    · exact Or.inl none
    · refine Or.inr ⟨fun i inside => ?_, ?_⟩
      · have byte := bytes (ck.off + i)
        rw [if_pos (by omega), same, Nat.add_sub_cancel_left] at byte
        exact byte.symm
      · by_contra spoiled
        simp only [not_or, Bool.not_eq_true] at spoiled
        obtain ⟨text, room, last, zero⟩ := spoiled
        have byte := bytes (ck.off + count)
        rw [if_neg (by omega), if_pos ⟨text, none, by omega, last, rfl⟩, same] at byte
        exact zero byte
  · intro stored i
    rw [bytes]
    by_cases inside : ck.off ≤ i ∧ i < ck.off + count
    · rw [if_pos inside]
      rcases stored with none | ⟨copied, -⟩
      · omega
      · have byte := copied (i - ck.off) (by omega)
        rw [byte, Nat.add_sub_cancel' inside.1]
    · rw [if_neg inside]
      split
      next terminator =>
        obtain ⟨text, positive, room, last, here⟩ := terminator
        rcases stored with none | ⟨-, binary | full | zero | zero⟩
        · exact absurd none positive
        · rw [text] at binary
          cases binary
        · omega
        · exact absurd zero last
        · rw [here, zero]
      next => rfl

structure ReadOnlyKept {size : Nat} (abi : Abi) (memory : Vector UInt8 size) (ck : Cookie) :
    Prop where
  kept : InBounds abi ck
  full : ck.len = ck.size
  untouched : Untouched memory ck

theorem readOnlyKept_perform {size : Nat} {abi : Abi} {memory : Vector UInt8 size} {ck : Cookie}
    {callback : Callback} (before : ReadOnlyKept abi memory ck)
    (promised : Promised abi ck callback) (quiet : ∀ nbytes data, callback ≠ .write nbytes data) :
    ReadOnlyKept abi memory (perform abi ck callback).cookie := by
  obtain ⟨kept, full, untouched⟩ := before
  have inside := inBounds_perform ck callback kept (promised_guarded kept full callback promised)
  rcases perform_bytes abi ck callback with ⟨nbytes, data, written⟩ | same
  · exact absurd written (quiet nbytes data)
  rcases perform_len abi ck callback with ⟨nbytes, data, written⟩ | len
  · exact absurd written (quiet nbytes data)
  refine ⟨inside, ?_, fun i => ?_⟩
  · rw [len, perform_size, full]
  · rw [same, untouched]

theorem readOnly_step {size : Nat} {abi : Abi} {memory : Vector UInt8 size} {stream : Stream}
    (writable : stream.writable = true) (noAppend : stream.append = false) (ck : Cookie)
    (operation : Callback) (before : ReadOnlyKept abi memory ck)
    (promised : Promised abi ck operation) :
    (Untouched memory (stream.act abi ck operation).cookie ↔ StoresNothingNew ck operation) ∧
      (StoresNothingNew ck operation →
        ReadOnlyKept abi memory (stream.act abi ck operation).cookie) := by
  cases operation with
  | write nbytes data =>
      obtain ⟨kept, full, untouched⟩ := before
      have guarded := promised_guarded kept full (.write nbytes data) promised
      have inside := inBounds_perform ck (.write nbytes data) kept guarded
      have size := perform_size abi ck (.write nbytes data)
      have editing : Editing ck (.write nbytes data) := ⟨kept.offBound, promised⟩
      have acts : stream.act abi ck (.write nbytes data) = fmemopenWrite abi ck nbytes data := by
        simp [Stream.act, writable, noAppend, perform]
      have exactly : Untouched memory (stream.act abi ck (.write nbytes data)).cookie ↔
          StoresNothingNew ck (.write nbytes data) := by
        rw [acts, ← write_untouched_iff data kept.fits editing]
        exact forall_congr' fun i => by rw [untouched i]
      refine ⟨exactly, fun stores => ⟨by rw [acts]; exact inside, ?_, exactly.mpr stores⟩⟩
      have longer := (write_len data kept.fits editing).1
      have bounded := inside.lenBound
      rw [acts]
      simp only [perform] at size bounded
      omega
  | read nbytes =>
      have after : ReadOnlyKept abi memory (stream.act abi ck (.read nbytes)).cookie := by
        rw [Stream.act]
        split
        · exact readOnlyKept_perform before promised fun _ _ other => by cases other
        · exact before
      exact ⟨iff_of_true after.untouched True.intro, fun _ => after⟩
  | seek offset whence =>
      have after : ReadOnlyKept abi memory (stream.act abi ck (.seek offset whence)).cookie :=
        readOnlyKept_perform before promised fun _ _ other => by cases other
      exact ⟨iff_of_true after.untouched True.intro, fun _ => after⟩

theorem act_delivers_nothing {abi : Abi} {stream : Stream} (noRead : stream.readable = false)
    (ck : Cookie) (operation : Callback) : (stream.act abi ck operation).delivered = [] := by
  cases operation with
  | read nbytes => rw [Stream.act, noRead]; rfl
  | write nbytes data =>
      rw [Stream.act]
      split
      · generalize (if stream.append then _ else ck) = start
        simp only [perform, fmemopenWrite]
        split_ifs <;> rfl
      · rfl
  | seek offset whence =>
      simp only [Stream.act, perform]
      split <;> rfl

/-- No run on a write-only stream delivers a byte. Runs on a read-only stream leave the client's
buffer alone exactly while their writes store nothing new. -/
theorem fmemopen_access_iff {abi : Abi} {parser : ModeParser} (lead : parser.ReadOnlyLead)
    {args : OpenArgs abi} {env : OpenEnv args.size} {stream : Stream} {flags : UInt32}
    (opened : fmemopen parser args env = .ok stream)
    (accepted : parser.sflags args.mode = some flags) (operations : List Callback) :
    let step := fun ck operation => (stream.act abi ck operation).cookie
    (flags &&& oAccmode = oWronly →
        Throughout step (fun ck operation => (stream.act abi ck operation).delivered = [])
          stream.cookie operations) ∧
      (flags &&& oAccmode = oRdonly → ∃ memory, args.buf = some memory ∧
        Untouched memory stream.cookie ∧
        (Throughout step (Promised abi) stream.cookie operations →
          (Throughout step (fun ck operation => Untouched memory (step ck operation))
              stream.cookie operations ↔
            Throughout step StoresNothingNew stream.cookie operations))) := by
  obtain ⟨readable, writable, -, -, -⟩ := fmemopen_stream opened accepted
  constructor
  · intro writeOnly
    have noRead : stream.readable = false := by
      have split : flags &&& oWronly = (flags &&& oAccmode) &&& oWronly := by
        rw [UInt32.and_assoc]
        rfl
      rw [readable, split, writeOnly]
      rfl
    exact throughout_always (act_delivers_nothing noRead) stream.cookie operations
  · intro readOnly
    obtain ⟨memory, passed, noAppend, untouched, full⟩ :=
      fmemopen_readOnly lead opened accepted readOnly
    refine ⟨memory, passed, untouched, fun promised => ?_⟩
    have initial : ReadOnlyKept abi memory stream.cookie :=
      ⟨fmemopen_inBounds opened, full, untouched⟩
    have preserved : ∀ ck operation, ReadOnlyKept abi memory ck → Promised abi ck operation →
        StoresNothingNew ck operation →
        ReadOnlyKept abi memory (stream.act abi ck operation).cookie := by
      intro ck operation before allowed stores
      exact (readOnly_step writable noAppend ck operation before allowed).2 stores
    exact throughout_iff_within preserved
      (fun ck operation before allowed =>
        (readOnly_step writable noAppend ck operation before allowed).1) initial promised

theorem fopenModes_readOnlyLead : fopenModes.ReadOnlyLead := by
  intro mode flags accepted readOnly
  simp only [fopenModes] at accepted
  split at accepted
  · rfl
  · split at accepted <;> cases accepted <;> cases readOnly
  · split at accepted <;> cases accepted <;> cases readOnly
  · cases accepted

def readArgs (mode : List Char) : OpenArgs .lp64 where
  size := 2
  fits := by decide
  buf := some (Vector.replicate 2 65)
  mode := mode

def readStream (bin : Bool) : Stream where
  readable := true
  writable := true
  append := false
  cookie := ⟨2, Vector.replicate 2 65, false, bin, 2, 0⟩

def rewriting : List Callback := [.read 1, .seek 0 seekSet, .write 1 fun _ => 65]

theorem fmemopen_access_rewriting :
    ∃ memory, (readArgs ['r', 'b']).buf = some memory ∧
      Throughout (fun ck operation => ((readStream true).act .lp64 ck operation).cookie)
        (fun ck operation => Untouched memory ((readStream true).act .lp64 ck operation).cookie)
        (readStream true).cookie rewriting := by
  have access := @fmemopen_access_iff .lp64 fopenModes fopenModes_readOnlyLead
    (readArgs ['r', 'b']) (grantedEnv 2) (readStream true) 0 rfl rfl rewriting
  obtain ⟨memory, passed, -, kept⟩ := access.2 rfl
  have one : 0 ≤ (1 : Int32).toInt := by decide
  refine ⟨memory, passed, (kept ?_).mpr ?_⟩
  · exact ⟨one, Or.inl rfl, one, True.intro⟩
  · refine ⟨True.intro, True.intro, Or.inr ⟨?_, Or.inl rfl⟩, True.intro⟩
    decide

theorem fmemopen_writes_readOnly :
    ¬ ∀ (abi : Abi) (parser : ModeParser), parser.ReadOnlyLead → ∀ (args : OpenArgs abi)
        (env : OpenEnv args.size) (stream : Stream) (flags : UInt32),
      fmemopen parser args env = .ok stream → parser.sflags args.mode = some flags →
      flags &&& oAccmode = oRdonly → ∀ memory, args.buf = some memory →
      ∀ operations : List Callback,
        Throughout (fun ck operation => (stream.act abi ck operation).cookie) (Promised abi)
          stream.cookie operations →
        Throughout (fun ck operation => (stream.act abi ck operation).cookie)
          (fun ck operation => Untouched memory (stream.act abi ck operation).cookie)
          stream.cookie operations := by
  intro always
  have one : 0 ≤ (1 : Int32).toInt := by decide
  have run := always .lp64 fopenModes fopenModes_readOnlyLead (readArgs ['r']) (grantedEnv 2)
    (readStream false) 0 rfl rfl rfl (Vector.replicate 2 65) rfl [.write 1 fun _ => 88]
    ⟨one, True.intro⟩
  exact absurd (run.1 0) (by decide)

end LegacySupport.Fmemopen
