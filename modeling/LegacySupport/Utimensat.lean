import LegacySupport.AtFunctions
import LegacySupport.Bytes
import LegacySupport.ClockAgreement

/-!
Setting the times of a file (`utimensat.c`, `setattrlist.c`). The times asked for are packed for
`setattrlist`, which takes the attributes of its mask in the order of their bits. A request for no
attribute is mended where the system fails it.
-/

namespace LegacySupport.Utimensat

open CInt Bytes Atcalls
open Time (Timespec)

def utimeNow : Int := -1
def utimeOmit : Int := -2
def attrCmnModtime : UInt32 := 0x400
def attrCmnAcctime : UInt32 := 0x1000
def attrVolInfo : UInt32 := 0x80000000
def attrBitMapCount : UInt16 := 5
def fsoptNofollow : Nat := 1
def enomem : Errno := 12

/-! ## Timespecs -/

abbrev LongTimespec (abi : Abi) := { ts : Timespec // abi.IsLong ts.sec ∧ abi.IsLong ts.nsec }

def sizeofLong (abi : Abi) : Nat := abi.bits / 8

def sizeofTimespec (abi : Abi) : Nat := 2 * sizeofLong abi

variable {abi : Abi}

def timespecBytes (order : ByteOrder) (ts : LongTimespec abi) : List UInt8 :=
  encode order (sizeofLong abi) (abi.sizeT ts.val.sec) ++
    encode order (sizeofLong abi) (abi.sizeT ts.val.nsec)

def readLong (abi : Abi) (order : ByteOrder) (bytes : List UInt8) (offset : Nat) : Int :=
  toSigned abi.bits (decode order (slice bytes offset (sizeofLong abi)))

theorem readLong_isLong (abi : Abi) (order : ByteOrder) (bytes : List UInt8) (offset : Nat) :
    abi.IsLong (readLong abi order bytes offset) :=
  toSigned_range abi.bits (by cases abi <;> decide) _

def readTimespec (abi : Abi) (order : ByteOrder) (bytes : List UInt8) : LongTimespec abi :=
  ⟨⟨readLong abi order bytes 0, readLong abi order bytes (sizeofLong abi)⟩,
    readLong_isLong abi order bytes 0, readLong_isLong abi order bytes (sizeofLong abi)⟩

/-- The times of a file, and what a `struct timespec[2]` asks for: the access time comes first. -/
structure Times (abi : Abi) where
  access : LongTimespec abi
  modification : LongTimespec abi
  deriving DecidableEq

structure Now (abi : Abi) where
  time : LongTimespec abi
  normal : time.val.Normal

/-! ## The code -/

def timesNow (abi : Abi) : Times abi :=
  have long : abi.IsLong 0 ∧ abi.IsLong utimeNow := by cases abi <;> decide
  ⟨⟨⟨0, utimeNow⟩, long⟩, ⟨⟨0, utimeNow⟩, long⟩⟩

structure Prepared where
  attrs : UInt32
  timesOut : List UInt8
  timesOutSize : Nat

def Prepared.add (order : ByteOrder) (prepared : Prepared) (attr : UInt32) (timesCursor : Nat)
    (ts : LongTimespec abi) : Prepared where
  attrs := prepared.attrs ||| attr
  timesOut := store prepared.timesOut timesCursor (timespecBytes order ts)
  timesOutSize := prepared.timesOutSize + sizeofTimespec abi

def resolveNow (now : Now abi) (slot : LongTimespec abi) : LongTimespec abi :=
  if slot.val.nsec = utimeNow then now.time else slot

def prepareTimesArrayAndAttrs (order : ByteOrder) (now : Now abi) (timesIn : Times abi)
    (timesOut : List UInt8) (timesOutSize : Nat) : Prepared :=
  if timesIn.access.val.nsec = utimeOmit ∧ timesIn.modification.val.nsec = utimeOmit then
    { attrs := 0, timesOut, timesOutSize }
  else
    -- the clock is read once, for both slots
    let timesIn : Times abi :=
      if timesIn.access.val.nsec = utimeNow ∨ timesIn.modification.val.nsec = utimeNow then
        ⟨resolveNow now timesIn.access, resolveNow now timesIn.modification⟩
      else timesIn
    let attrs : Prepared := { attrs := 0, timesOut, timesOutSize := 0 }
    let (attrs, timesCursor) :=
      if timesIn.modification.val.nsec ≠ utimeOmit then
        (attrs.add order attrCmnModtime 0 timesIn.modification, sizeofTimespec abi)
      else (attrs, 0)
    if timesIn.access.val.nsec ≠ utimeOmit then
      attrs.add order attrCmnAcctime timesCursor timesIn.access
    else attrs

structure Attrlist where
  bitmapcount : UInt16
  commonattr : UInt32
  volattr : UInt32
  dirattr : UInt32
  fileattr : UInt32
  forkattr : UInt32
  deriving DecidableEq

structure Request where
  attrList : Attrlist
  attrBuf : List UInt8
  attrBufSize : Nat
  deriving DecidableEq

def timesRequest (order : ByteOrder) (now : Now abi) (timesIn : Option (Times abi)) : Request :=
  let prepared := prepareTimesArrayAndAttrs order now (timesIn.getD (timesNow abi))
    (List.replicate (2 * sizeofTimespec abi) 0) 0
  { attrList := ⟨attrBitMapCount, prepared.attrs, 0, 0, 0, 0⟩
    attrBuf := prepared.timesOut
    attrBufSize := prepared.timesOutSize }

structure System (FS Dir : Type) extends Os FS Dir where
  setattrlist : Path → Nat → Proc FS Dir → Request → Except Errno Unit × FS
  fsetattrlist : Int → Nat → Proc FS Dir → Request → Except Errno Unit × FS

def fixRet (error : Errno) (al : Attrlist) (bufsiz : Nat) : Except Errno Unit :=
  if bufsiz = 0 ∧ al.commonattr = 0 ∧ al.volattr &&& ~~~attrVolInfo = 0 ∧ al.dirattr = 0 ∧
      al.fileattr = 0 ∧ al.forkattr = 0 then .ok ()
  else .error error

/-- `__MPLS_LIB_FIX_SETATTRLIST__`, by the version of the system. -/
def FixSetattrlist (osver : Nat) : Prop := osver < 1080 ∧ 1050 ≤ osver

instance (osver : Nat) : Decidable (FixSetattrlist osver) := inferInstanceAs (Decidable (_ ∧ _))

/-- What `setattrlist` and `fsetattrlist` of the library make of the system's result. A success
that is made up gives back the old error number. -/
def fixed (osver : Nat) (request : Request) : Except Errno Unit → Except Errno Unit
  | .ok value => .ok value
  | .error error =>
      if FixSetattrlist osver ∧ error = enomem then
        fixRet error request.attrList request.attrBufSize
      else .error error

variable {FS Dir : Type}

def System.withRequest (system : System FS Dir) (osver : Nat) (request : Request) : Os FS Dir :=
  { system.toOs with
    exec := fun syscall proc =>
      match syscall with
      | .setattrlist path _ _ _ options =>
          (fixed osver request (system.setattrlist path options proc request).1).map fun _ => 0
      | other => system.exec other proc
    fsAfter := fun syscall proc =>
      match syscall with
      | .setattrlist path _ _ _ options => (system.setattrlist path options proc request).2
      | other => system.fsAfter other proc
    exec_fresh := fun syscall proc fd opens succeeded => by
      cases syscall with
      | setattrlist => cases opens
      | _ => exact system.exec_fresh _ proc fd opens succeeded }

/-- Below 10.6 the library goes by the path of the descriptor. -/
def fsetattrlist (system : System FS Dir) (osver : Nat) (request : Request) (fd : Int)
    (attrList attrBuf options : Nat) (proc : Proc FS Dir) : Int × Proc FS Dir :=
  if osver < 1060 then
    match fcntlGetpath system.toOs proc fd with
    | .error error => proc.fail error
    | .ok fpath => call (system.withRequest osver request)
        (.setattrlist fpath attrList attrBuf request.attrBufSize options) proc
  else
    let (answer, fs) := system.fsetattrlist fd options proc request
    match fixed osver request answer with
    | .error error => { proc with fs }.fail error
    | .ok _ => (0, { proc with fs })

section Functions

variable (system : System FS Dir) (osver : Nat) (order : ByteOrder) (now : Now abi)
  (proc : Proc FS Dir) (fd : Int)

def futimens (timesIn : Option (Times abi)) (a timesOut : Nat) : Int × Proc FS Dir :=
  fsetattrlist system osver (timesRequest order now timesIn) fd a timesOut 0 proc

def flagsOut (flags : UInt32) : Nat := if flags &&& atSymlinkNofollow ≠ 0 then fsoptNofollow else 0

def utimensat (path : Path) (timesIn : Option (Times abi)) (flags : UInt32) (a timesOut : Nat) :
    Int × Proc FS Dir :=
  let request := timesRequest order now timesIn
  setattrlistat (system.withRequest osver request) proc fd path a timesOut request.attrBufSize
    (flagsOut flags)

end Functions

/-! ## What is asked for -/

def asked (now : Now abi) (slot prior : LongTimespec abi) : LongTimespec abi :=
  if slot.val.nsec = utimeNow then now.time
  else if slot.val.nsec = utimeOmit then prior
  else slot

def Times.asked (now : Now abi) (timesIn : Option (Times abi)) (prior : Times abi) : Times abi :=
  match timesIn with
  | none => ⟨now.time, now.time⟩
  | some slots => ⟨Utimensat.asked now slots.access prior.access,
      Utimensat.asked now slots.modification prior.modification⟩

def BothNow (timesIn : Option (Times abi)) : Prop :=
  ∀ slots ∈ timesIn, slots.access.val.nsec = utimeNow ∧ slots.modification.val.nsec = utimeNow

def BothOmitted (timesIn : Option (Times abi)) : Prop :=
  ∃ slots ∈ timesIn, slots.access.val.nsec = utimeOmit ∧ slots.modification.val.nsec = utimeOmit

/-! ## What is taken -/

def modtimeBit : Nat := 10
def acctimeBit : Nat := 12

/-- The attributes from `ATTR_CMN_CRTIME` to `ATTR_CMN_BKUPTIME` are times. -/
def IsTime (bit : Nat) : Prop := 9 ≤ bit ∧ bit ≤ 13

instance (bit : Nat) : Decidable (IsTime bit) := inferInstanceAs (Decidable (_ ∧ _))

def presentBits (mask : UInt32) : List Nat := (List.range 32).filter mask.toNat.testBit

def takeTimes (abi : Abi) (order : ByteOrder) :
    List Nat → List UInt8 → Option (List (Nat × LongTimespec abi) × List UInt8)
  | [], buf => some ([], buf)
  | bit :: bits, buf =>
      if ¬ IsTime bit ∨ buf.length < sizeofTimespec abi then none
      else
        (takeTimes abi order bits (buf.drop (sizeofTimespec abi))).map fun (entries, rest) =>
          ((bit, readTimespec abi order buf) :: entries, rest)

def Times.set (times : Times abi) (entry : Nat × LongTimespec abi) : Times abi :=
  if entry.1 = modtimeBit then { times with modification := entry.2 }
  else if entry.1 = acctimeBit then { times with access := entry.2 }
  else times

/-- What `setattrlist` makes of the times of a file, and the bytes of the buffer that it has not
read; nothing if it would read past the size given, or that is past the buffer. -/
def consume (order : ByteOrder) (request : Request) (prior : Times abi) :
    Option (Times abi × List UInt8) :=
  if request.attrBuf.length < request.attrBufSize then none
  else
    (takeTimes abi order (presentBits request.attrList.commonattr)
      (request.attrBuf.take request.attrBufSize)).map fun (entries, rest) =>
        (entries.foldl Times.set prior, rest)

/-! ## Packing -/

def packed (order : ByteOrder) (entries : List (Nat × LongTimespec abi)) : List UInt8 :=
  entries.flatMap fun entry => timespecBytes order entry.2

@[simp] theorem length_timespecBytes (order : ByteOrder) (ts : LongTimespec abi) :
    (timespecBytes order ts).length = sizeofTimespec abi := by
  rw [timespecBytes, List.length_append, length_encode, length_encode, sizeofTimespec, Nat.two_mul]

theorem readLong_encode (order : ByteOrder) {value : Int} (long : abi.IsLong value)
    (before after : List UInt8) :
    readLong abi order (before ++ encode order (sizeofLong abi) (abi.sizeT value) ++ after)
      before.length = value := by
  have fits : abi.sizeT value < 256 ^ sizeofLong abi := by
    have bound := sizeT_lt abi value
    cases abi <;> exact bound
  have found : slice (before ++ encode order (sizeofLong abi) (abi.sizeT value) ++ after)
      before.length (sizeofLong abi) = encode order (sizeofLong abi) (abi.sizeT value) := by
    have middle := slice_append before (encode order (sizeofLong abi) (abi.sizeT value)) after
    rwa [length_encode] at middle
  rw [readLong, found, decode_encode fits]
  exact toSigned_toUnsigned (by cases abi <;> decide) long.1 long.2

theorem readTimespec_bytes (order : ByteOrder) (ts : LongTimespec abi) (rest : List UInt8) :
    readTimespec abi order (timespecBytes order ts ++ rest) = ts := by
  have sec := readLong_encode order ts.2.1 [] (encode order (sizeofLong abi)
    (abi.sizeT ts.val.nsec) ++ rest)
  have nsec := readLong_encode order ts.2.2 (encode order (sizeofLong abi)
    (abi.sizeT ts.val.sec)) rest
  rw [List.nil_append, ← List.append_assoc, List.length_nil] at sec
  rw [length_encode] at nsec
  apply Subtype.ext
  change (⟨readLong abi order (timespecBytes order ts ++ rest) 0,
    readLong abi order (timespecBytes order ts ++ rest) (sizeofLong abi)⟩ : Timespec) = ts.val
  rw [timespecBytes, sec, nsec]

theorem takeTimes_packed (order : ByteOrder) : ∀ entries : List (Nat × LongTimespec abi),
    (∀ entry ∈ entries, IsTime entry.1) →
      takeTimes abi order (entries.map Prod.fst) (packed order entries) = some (entries, []) := by
  intro entries
  induction entries with
  | nil => exact fun _ => rfl
  | cons entry rest ih =>
      intro times
      have first := times entry List.mem_cons_self
      have others := ih fun other member => times other (List.mem_cons_of_mem _ member)
      have length := length_timespecBytes order entry.2
      have room : ¬ (¬ IsTime entry.1 ∨
          (timespecBytes order entry.2 ++ packed order rest).length < sizeofTimespec abi) := by
        rintro (other | short)
        · exact other first
        · rw [List.length_append, length] at short
          omega
      have left : (timespecBytes order entry.2 ++ packed order rest).drop (sizeofTimespec abi) =
          packed order rest := by rw [← length, List.drop_left]
      rw [List.map_cons, packed, List.flatMap_cons, ← packed, takeTimes, if_neg room, left, others,
        readTimespec_bytes]
      rfl

def entries (slots : Times abi) : List (Nat × LongTimespec abi) :=
  (if slots.modification.val.nsec = utimeOmit then [] else [(modtimeBit, slots.modification)]) ++
    if slots.access.val.nsec = utimeOmit then [] else [(acctimeBit, slots.access)]

/-- The request is for these entries, and for nothing else. -/
structure Packs (order : ByteOrder) (prepared : Prepared)
    (entries : List (Nat × LongTimespec abi)) : Prop where
  bits : presentBits prepared.attrs = entries.map Prod.fst
  inside : prepared.timesOutSize ≤ prepared.timesOut.length
  bytes : prepared.timesOut.take prepared.timesOutSize = packed order entries

theorem Packs.add {order : ByteOrder} {prepared : Prepared}
    {entries : List (Nat × LongTimespec abi)} (packs : Packs order prepared entries) {attr : UInt32}
    {bit timesCursor : Nat} (ts : LongTimespec abi)
    (bits : presentBits (prepared.attrs ||| attr) = presentBits prepared.attrs ++ [bit])
    (cursor : timesCursor = prepared.timesOutSize)
    (room : prepared.timesOutSize + sizeofTimespec abi ≤ prepared.timesOut.length) :
    Packs order (prepared.add order attr timesCursor ts) (entries ++ [(bit, ts)]) := by
  have length := length_timespecBytes order ts
  subst cursor
  constructor
  · rw [Prepared.add, bits, packs.bits, List.map_append]
    rfl
  · rw [Prepared.add]
    dsimp only
    rw [length_store (by omega)]
    exact room
  · have stored := take_store packs.inside (timespecBytes order ts)
    rw [length, packs.bytes] at stored
    rw [Prepared.add]
    dsimp only
    rw [stored, packed, packed, List.flatMap_append]
    simp

theorem presentBits_zero : presentBits 0 = [] := by decide

theorem presentBits_modtime :
    presentBits (0 ||| attrCmnModtime) = presentBits 0 ++ [modtimeBit] := by decide

theorem presentBits_acctime :
    presentBits (0 ||| attrCmnAcctime) = presentBits 0 ++ [acctimeBit] := by decide

theorem presentBits_both : presentBits (0 ||| attrCmnModtime ||| attrCmnAcctime) =
    presentBits (0 ||| attrCmnModtime) ++ [acctimeBit] := by decide

theorem packs_none (order : ByteOrder) (timesOut : List UInt8) :
    Packs order ⟨0, timesOut, 0⟩ ([] : List (Nat × LongTimespec abi)) where
  bits := presentBits_zero
  inside := Nat.zero_le _
  bytes := rfl

theorem resolveNow_omit (now : Now abi) (slot : LongTimespec abi) :
    (resolveNow now slot).val.nsec = utimeOmit ↔ slot.val.nsec = utimeOmit := by
  have normal := now.normal.1
  unfold resolveNow
  split
  next given =>
    rw [given]
    exact iff_of_false (fun same => by rw [same] at normal; exact absurd normal (by decide))
      (by decide)
  next => exact Iff.rfl

theorem asked_eq (now : Now abi) (slot prior : LongTimespec abi) :
    asked now slot prior =
      if slot.val.nsec = utimeOmit then prior else resolveNow now slot := by
  unfold asked resolveNow
  split
  next given =>
    have other : utimeNow ≠ utimeOmit := by decide
    rw [given, if_neg other]
  next => rfl

def Times.resolved (now : Now abi) (slots : Times abi) : Times abi :=
  ⟨resolveNow now slots.access, resolveNow now slots.modification⟩

theorem resolved_eq (now : Now abi) (slots : Times abi) :
    (if slots.access.val.nsec = utimeNow ∨ slots.modification.val.nsec = utimeNow then
        ⟨resolveNow now slots.access, resolveNow now slots.modification⟩ else slots) =
      slots.resolved now := by
  split
  next => rfl
  next neither =>
    rw [not_or] at neither
    rw [Times.resolved, resolveNow, resolveNow, if_neg neither.1, if_neg neither.2]

theorem prepare_packs (order : ByteOrder) (now : Now abi) (slots : Times abi)
    {timesOut : List UInt8} (room : 2 * sizeofTimespec abi ≤ timesOut.length) :
    Packs order (prepareTimesArrayAndAttrs order now slots timesOut 0)
      (entries (slots.resolved now)) := by
  have access : (slots.resolved now).access.val.nsec = utimeOmit ↔
      slots.access.val.nsec = utimeOmit := resolveNow_omit now slots.access
  have modification : (slots.resolved now).modification.val.nsec = utimeOmit ↔
      slots.modification.val.nsec = utimeOmit := resolveNow_omit now slots.modification
  unfold prepareTimesArrayAndAttrs
  split
  next both =>
    rw [entries, if_pos (modification.mpr both.2), if_pos (access.mpr both.1)]
    exact packs_none order timesOut
  next some =>
    rw [resolved_eq]
    rw [← access, ← modification] at some
    generalize slots.resolved now = slots at some
    have size : (timespecBytes order slots.modification).length = sizeofTimespec abi :=
      length_timespecBytes order _
    have first := (@packs_none abi order timesOut).add slots.modification presentBits_modtime rfl
      (by dsimp only; omega)
    dsimp only
    by_cases noModification : slots.modification.val.nsec = utimeOmit
    · have noAccess : slots.access.val.nsec ≠ utimeOmit := fun omitted =>
        some ⟨omitted, noModification⟩
      rw [entries, if_pos noModification, if_neg noAccess,
        if_neg (not_not.mpr noModification), if_pos noAccess]
      exact (packs_none order timesOut).add slots.access presentBits_acctime rfl
        (by dsimp only; omega)
    · rw [entries, if_neg noModification, if_pos noModification]
      by_cases noAccess : slots.access.val.nsec = utimeOmit
      · rw [if_pos noAccess, if_neg (not_not.mpr noAccess)]
        exact first
      · rw [if_neg noAccess, if_pos noAccess]
        have length : (store timesOut 0 (timespecBytes order slots.modification)).length =
            timesOut.length := length_store (by omega)
        exact first.add slots.access presentBits_both (Nat.zero_add _).symm
          (by rw [Prepared.add]; dsimp only; omega)

theorem set_entries (slots prior : Times abi) :
    (entries slots).foldl Times.set prior =
      ⟨if slots.access.val.nsec = utimeOmit then prior.access else slots.access,
        if slots.modification.val.nsec = utimeOmit then prior.modification
        else slots.modification⟩ := by
  unfold entries
  split
  · split
    · rfl
    · rfl
  · split
    · rfl
    · rfl

theorem isTime_modtimeBit : IsTime modtimeBit := by decide

theorem isTime_acctimeBit : IsTime acctimeBit := by decide

theorem entries_times (slots : Times abi) : ∀ entry ∈ entries slots, IsTime entry.1 := by
  intro entry member
  unfold entries at member
  rw [List.mem_append] at member
  rcases member with modification | access
  · split at modification
    · cases modification
    · rw [List.mem_singleton.mp modification]
      exact isTime_modtimeBit
  · split at access
    · cases access
    · rw [List.mem_singleton.mp access]
      exact isTime_acctimeBit

theorem resolved_asked (now : Now abi) (timesIn : Option (Times abi)) (prior : Times abi) :
    (entries ((timesIn.getD (timesNow abi)).resolved now)).foldl Times.set prior =
      Times.asked now timesIn prior := by
  rw [set_entries]
  simp only [Times.resolved, resolveNow_omit, ← asked_eq]
  cases timesIn with
  | none => rfl
  | some slots => rfl

theorem length_zeros (abi : Abi) :
    (List.replicate (2 * sizeofTimespec abi) (0 : UInt8)).length = 2 * sizeofTimespec abi :=
  List.length_replicate

theorem consume_timesRequest (order : ByteOrder) (now : Now abi) (timesIn : Option (Times abi))
    (prior : Times abi) :
    consume order (timesRequest order now timesIn) prior =
      some (Times.asked now timesIn prior, []) := by
  have packs := prepare_packs order now (timesIn.getD (timesNow abi))
    (Nat.le_of_eq (length_zeros abi).symm)
  have taken := takeTimes_packed order _ (entries_times ((timesIn.getD (timesNow abi)).resolved now))
  rw [consume, timesRequest]
  dsimp only
  rw [if_neg (Nat.not_lt.mpr packs.inside)]
  rw [packs.bits, packs.bytes, taken, Option.map_some]
  dsimp only
  rw [resolved_asked]

/-! ## Setting the times -/

/-- The system does nothing for a request that sets nothing, and grants it; or it fails it as
10.5 to 10.7 do. -/
structure AnswersEmpty (osver : Nat) (answer : Request → Except Errno Unit × FS) (fs : FS) :
    Prop where
  answered : ∀ request, request.attrList.commonattr = 0 → request.attrBufSize = 0 →
    (answer request).1 = .ok () ∨ FixSetattrlist osver ∧ (answer request).1 = .error enomem
  unchanged : ∀ request, request.attrList.commonattr = 0 → request.attrBufSize = 0 →
    (answer request).2 = fs

/-- The system sets the times of a file as it takes them from a request. -/
structure Consumes (order : ByteOrder) (timesOf : FS → Times abi)
    (answer : Request → Except Errno Unit × FS) (fs : FS) : Prop where
  granted : ∀ request times, consume order request (timesOf fs) = some (times, []) →
    request.attrList.commonattr ≠ 0 → (answer request).1 = .ok ()
  sets : ∀ request times, consume order request (timesOf fs) = some (times, []) →
    request.attrList.commonattr ≠ 0 → timesOf (answer request).2 = times

/-- Where the call is made in the end: in the directory of the descriptor, once that has been
entered, or where the process is. -/
def CalledAt (os : Os FS Dir) (proc : Proc FS Dir) (fd : Int) (path : Path)
    (place : Proc FS Dir) : Prop :=
  if Direct fd path then place = proc
  else mplsBestFchdir os (saveCwd os proc).2 fd = (0, place)

section Answers

variable {osver : Nat} (order : ByteOrder) (now : Now abi) {timesIn : Option (Times abi)}
  {answer : Request → Except Errno Unit × FS} {fs : FS}

theorem timesRequest_omitted (omitted : BothOmitted timesIn) :
    (timesRequest order now timesIn).attrList.commonattr = 0 ∧
      (timesRequest order now timesIn).attrBufSize = 0 := by
  obtain ⟨slots, rfl, both⟩ := omitted
  rw [timesRequest, Option.getD_some, prepareTimesArrayAndAttrs, if_pos both]
  exact ⟨rfl, rfl⟩

theorem omitted_of_empty (empty : (timesRequest order now timesIn).attrList.commonattr = 0) :
    BothOmitted timesIn := by
  have packs := prepare_packs order now (timesIn.getD (timesNow abi))
    (Nat.le_of_eq (length_zeros abi).symm)
  have none := packs.bits
  change presentBits (timesRequest order now timesIn).attrList.commonattr = _ at none
  rw [empty, presentBits_zero, eq_comm, List.map_eq_nil_iff, entries, List.append_eq_nil_iff] at none
  obtain ⟨modification, access⟩ := none
  have modificationOmitted : (timesIn.getD (timesNow abi)).modification.val.nsec = utimeOmit := by
    rw [← resolveNow_omit now]
    by_contra given
    exact absurd ((if_neg given).symm.trans modification) (List.cons_ne_nil _ _)
  have accessOmitted : (timesIn.getD (timesNow abi)).access.val.nsec = utimeOmit := by
    rw [← resolveNow_omit now]
    by_contra given
    exact absurd ((if_neg given).symm.trans access) (List.cons_ne_nil _ _)
  cases timesIn with
  | none => exact absurd accessOmitted (by decide : utimeNow ≠ utimeOmit)
  | some slots => exact ⟨slots, rfl, accessOmitted, modificationOmitted⟩

theorem asked_omitted (omitted : BothOmitted timesIn) (prior : Times abi) :
    Times.asked now timesIn prior = prior := by
  obtain ⟨slots, rfl, access, modification⟩ := omitted
  rw [Times.asked, asked_eq, asked_eq, if_pos access, if_pos modification]

theorem fixed_empty (answers : AnswersEmpty osver answer fs) (omitted : BothOmitted timesIn) :
    fixed osver (timesRequest order now timesIn) (answer (timesRequest order now timesIn)).1 =
        .ok () ∧
      (answer (timesRequest order now timesIn)).2 = fs := by
  obtain ⟨mask, size⟩ := timesRequest_omitted order now omitted
  refine ⟨?_, answers.unchanged _ mask size⟩
  rcases answers.answered _ mask size with granted | ⟨fixes, failed⟩
  · rw [granted]
    rfl
  · have none : (0 : UInt32) &&& ~~~attrVolInfo = 0 := by decide
    have others : (timesRequest order now timesIn).attrList.volattr &&& ~~~attrVolInfo = 0 ∧
        (timesRequest order now timesIn).attrList.dirattr = 0 ∧
        (timesRequest order now timesIn).attrList.fileattr = 0 ∧
        (timesRequest order now timesIn).attrList.forkattr = 0 := ⟨none, rfl, rfl, rfl⟩
    rw [failed, fixed, if_pos ⟨fixes, rfl⟩, fixRet, if_pos ⟨size, mask, others⟩]

theorem fixed_times {timesOf : FS → Times abi} (answers : AnswersEmpty osver answer fs)
    (consumes : Consumes order timesOf answer fs) (timesIn : Option (Times abi)) :
    fixed osver (timesRequest order now timesIn) (answer (timesRequest order now timesIn)).1 =
        .ok () ∧
      timesOf (answer (timesRequest order now timesIn)).2 =
        Times.asked now timesIn (timesOf fs) := by
  by_cases omitted : BothOmitted timesIn
  · obtain ⟨succeeds, files⟩ := fixed_empty order now answers omitted
    rw [files, asked_omitted now omitted]
    exact ⟨succeeds, rfl⟩
  · have some : (timesRequest order now timesIn).attrList.commonattr ≠ 0 :=
      mt (omitted_of_empty order now) omitted
    have taken := consume_timesRequest order now timesIn (timesOf fs)
    rw [consumes.granted _ _ taken some]
    exact ⟨rfl, consumes.sets _ _ taken some⟩

end Answers

section Calls

variable {system : System FS Dir} {osver : Nat} (order : ByteOrder) (now : Now abi)
  {proc place : Proc FS Dir} {fd : Int} {path : Path} {timesIn : Option (Times abi)}
  {flags : UInt32}

theorem calledAt_fs {os : Os FS Dir} (called : CalledAt os proc fd path place) :
    place.fs = proc.fs := by
  unfold CalledAt at called
  split at called
  next => rw [called]
  next =>
    have entered := (mplsBestFchdir_fs os (saveCwd os proc).2 fd).1
    rw [called, saveCwd_fs] at entered
    exact entered

theorem call_setattrlist {request : Request} {options : Nat}
    (granted : fixed osver request (system.setattrlist path options place request).1 = .ok ())
    (a buf size : Nat) :
    call (system.withRequest osver request) (.setattrlist path a buf size options) place =
      (0, { place with
        fs := (system.setattrlist path options place request).2
        log := place.log ++ [.called (.setattrlist path a buf size options) place.creds none] }) := by
  have exec : (system.withRequest osver request).exec
      (.setattrlist path a buf size options) place = .ok 0 := by
    change (fixed osver request (system.setattrlist path options place request).1).map _ = _
    rw [granted]
    rfl
  rw [call, exec]
  rfl

theorem utimensat_answer (called : CalledAt system.toOs proc fd path place) (a timesOut : Nat)
    (granted : fixed osver (timesRequest order now timesIn)
      (system.setattrlist path (flagsOut flags) place (timesRequest order now timesIn)).1 = .ok ()) :
    (utimensat system osver order now proc fd path timesIn flags a timesOut).1 = 0 ∧
      (utimensat system osver order now proc fd path timesIn flags a timesOut).2.fs =
        (system.setattrlist path (flagsOut flags) place (timesRequest order now timesIn)).2 := by
  have answer := call_setattrlist granted a timesOut (timesRequest order now timesIn).attrBufSize
  unfold CalledAt at called
  rw [utimensat, setattrlistat, returnAtcall, atcall]
  split at called
  next direct =>
    rw [if_neg (not_not.mpr direct), ← called, answer]
    exact ⟨rfl, rfl⟩
  next relative =>
    have entered : mplsBestFchdir (system.withRequest osver (timesRequest order now timesIn))
        (saveCwd (system.withRequest osver (timesRequest order now timesIn)) proc).2 fd =
          (0, place) := called
    rw [if_pos relative]
    dsimp only
    rw [entered, answer]
    exact ⟨rfl, restoreCwd_fs _ _ _⟩

theorem utimensat_omits (called : CalledAt system.toOs proc fd path place)
    (answers : AnswersEmpty osver (system.setattrlist path (flagsOut flags) place) place.fs)
    (omitted : BothOmitted timesIn) (a timesOut : Nat) :
    (utimensat system osver order now proc fd path timesIn flags a timesOut).1 = 0 ∧
      (utimensat system osver order now proc fd path timesIn flags a timesOut).2.fs = proc.fs := by
  obtain ⟨granted, files⟩ := fixed_empty order now answers omitted
  have result := utimensat_answer order now called a timesOut granted
  rw [files, calledAt_fs called] at result
  exact result

theorem utimensat_times {timesOf : FS → Times abi}
    (called : CalledAt system.toOs proc fd path place)
    (answers : AnswersEmpty osver (system.setattrlist path (flagsOut flags) place) place.fs)
    (consumes : Consumes order timesOf (system.setattrlist path (flagsOut flags) place) place.fs)
    (timesIn : Option (Times abi)) (a timesOut : Nat) :
    (utimensat system osver order now proc fd path timesIn flags a timesOut).1 = 0 ∧
      timesOf (utimensat system osver order now proc fd path timesIn flags a timesOut).2.fs =
        Times.asked now timesIn (timesOf proc.fs) := by
  obtain ⟨granted, times⟩ := fixed_times order now answers consumes timesIn
  obtain ⟨succeeds, files⟩ := utimensat_answer order now called a timesOut granted
  rw [files, times, calledAt_fs called]
  exact ⟨succeeds, rfl⟩

theorem futimens_times {timesOf : FS → Times abi} {answer : Request → Except Errno Unit × FS}
    (reached : if osver < 1060 then
        ∃ fpath, fcntlGetpath system.toOs proc fd = .ok fpath ∧
          answer = system.setattrlist fpath 0 proc
      else answer = system.fsetattrlist fd 0 proc)
    (answers : AnswersEmpty osver answer proc.fs)
    (consumes : Consumes order timesOf answer proc.fs)
    (timesIn : Option (Times abi)) (a timesOut : Nat) :
    (futimens system osver order now proc fd timesIn a timesOut).1 = 0 ∧
      timesOf (futimens system osver order now proc fd timesIn a timesOut).2.fs =
        Times.asked now timesIn (timesOf proc.fs) := by
  obtain ⟨granted, times⟩ := fixed_times order now answers consumes timesIn
  rw [← times, futimens, fsetattrlist]
  split at reached
  next early =>
    obtain ⟨fpath, found, rfl⟩ := reached
    rw [if_pos early, found]
    dsimp only
    rw [call_setattrlist granted]
    exact ⟨rfl, rfl⟩
  next late =>
    subst reached
    rw [if_neg late]
    dsimp only
    rw [granted]
    exact ⟨rfl, rfl⟩

end Calls

theorem clockGettime_now (build : Time.Build) (readings : Time.Readings) (mach : Time.MachStatics)
    (micros : readings.gettimeofday.2.Micros)
    (long : build.abi.IsLong readings.gettimeofday.2.sec) :
    ∃ now : Now build.abi,
      (Time.clockGettime build readings mach .realtime).value.2 = some now.time.val := by
  obtain ⟨lower, upper⟩ := micros
  have scaled : int (readings.gettimeofday.2.usec * 1000) = readings.gettimeofday.2.usec * 1000 := by
    rw [int_eq]
    omega
  have fits : build.abi.IsLong (int (readings.gettimeofday.2.usec * 1000)) := by
    rw [scaled]
    cases build.abi with
    | ilp32 => rw [isLong_ilp32]; omega
    | lp64 => rw [isLong_lp64]; omega
  have normal : 0 ≤ int (readings.gettimeofday.2.usec * 1000) ∧
      int (readings.gettimeofday.2.usec * 1000) < 1000000000 := by omega
  exact ⟨⟨⟨⟨readings.gettimeofday.2.sec, int (readings.gettimeofday.2.usec * 1000)⟩,
    long, fits⟩, normal⟩, rfl⟩

/-- The request, taken as `setattrlist` takes it, sets the times to what was asked for, and leaves
no byte. Where nothing is asked for, `utimensat` succeeds and leaves the files as they are. -/
theorem utimensat_setsTimes (osver : Nat) (order : ByteOrder) (now : Now abi)
    (timesIn : Option (Times abi)) (prior : Times abi) :
    (∃ times, consume order (timesRequest order now timesIn) prior = some (times, []) ∧
        times = Times.asked now timesIn prior ∧
        (BothNow timesIn → times.access = times.modification)) ∧
      ∀ {FS Dir : Type} (system : System FS Dir) (proc place : Proc FS Dir) (fd : Int)
        (path : Path) (flags : UInt32) (a timesOut : Nat), BothOmitted timesIn →
        CalledAt system.toOs proc fd path place →
        AnswersEmpty osver (system.setattrlist path (flagsOut flags) place) place.fs →
          (utimensat system osver order now proc fd path timesIn flags a timesOut).1 = 0 ∧
            (utimensat system osver order now proc fd path timesIn flags a timesOut).2.fs =
              proc.fs := by
  refine ⟨⟨_, consume_timesRequest order now timesIn prior, rfl, fun both => ?_⟩, ?_⟩
  · cases timesIn with
    | none => rfl
    | some slots =>
        obtain ⟨access, modification⟩ := both slots rfl
        rw [Times.asked, Utimensat.asked, Utimensat.asked, if_pos access, if_pos modification]
  · intro FS Dir system proc place fd path flags a timesOut omitted called answers
    exact utimensat_omits order now called answers omitted a timesOut

def omit32 : LongTimespec .ilp32 := ⟨⟨0, utimeOmit⟩, by decide, by decide⟩

def noon : LongTimespec .ilp32 := ⟨⟨1700000000, 250000000⟩, by decide, by decide⟩

def leopard : System (Times .ilp32) Nat where
  setreuid creds ruid euid := { creds with ruid := ruid, euid := euid }
  setregid creds rgid egid := { creds with rgid := rgid, egid := egid }
  openDot _ := .error 24
  chdirError _ _ _ := none
  noOwnCwd := einval
  getpath _ _ := .ok []
  fstatError _ _ := none
  exec _ _ := .error einval
  opened _ _ := ⟨.file 0, 0, false⟩
  fsAfter _ proc := proc.fs
  setreuid_swap := swapUids
  setregid_swap := swapGids
  openDot_fresh _ _ opened := by cases opened
  exec_fresh _ _ _ _ succeeded := by cases succeeded
  setattrlist _ _ proc _ := (.error enomem, proc.fs)
  fsetattrlist _ _ proc _ := (.error enomem, proc.fs)

def leopardProc : Proc (Times .ilp32) Nat where
  creds := ⟨0, 0, 0, 0⟩
  cwd := .perThread 1 none
  fds _ := none
  errno := 0
  fs := ⟨noon, noon⟩
  log := []

theorem utimensat_setsTimes_leopard :
    (utimensat leopard 1050 .big ⟨noon, by decide⟩ leopardProc atFdcwd ['f']
      (some ⟨omit32, omit32⟩) 0 0 0).1 = 0 := by
  have result := (utimensat_setsTimes 1050 .big ⟨noon, by decide⟩ (some ⟨omit32, omit32⟩)
    ⟨noon, noon⟩).2 leopard leopardProc leopardProc atFdcwd ['f'] 0 0 0
  refine (result ⟨⟨omit32, omit32⟩, rfl, rfl, rfl⟩ rfl ⟨?_, ?_⟩).1
  · intro request mask size
    exact Or.inr ⟨by decide, rfl⟩
  · intro request mask size
    rfl

end LegacySupport.Utimensat
