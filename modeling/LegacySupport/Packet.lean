import LegacySupport.PacketCore

/-!
The control messages of a stream, and the two passes of the format fix over them. The first
pass counts the messages of one level only, the second writes them all.
-/

namespace LegacySupport.Packet

open CInt Bytes

/-! ## Messages -/

structure Message where
  level : UInt32
  type : UInt32
  payload : List UInt8
  deriving DecidableEq

def Message.length (message : Message) : Nat := sizeofCmsghdr + message.payload.length

def Message.header (message : Message) : Cmsghdr where
  cmsgLen := message.length
  cmsgLevel := message.level.toNat
  cmsgType := message.type.toNat

def Message.bytes (order : ByteOrder) (message : Message) : List UInt8 :=
  message.header.bytes order ++ message.payload

/-- The messages stand one behind the other from `base` on, each at an aligned distance from
the one before, and there is no room for another header behind the last one. -/
def LaidOut (order : ByteOrder) (memory : List UInt8) (controllen : Nat) :
    Nat → List Message → Prop
  | base, [] => controllen < base + sizeofCmsghdr
  | base, message :: messages =>
      base + message.length ≤ controllen ∧ message.length < 2 ^ 32 ∧
        slice memory base message.length = message.bytes order ∧
        LaidOut order memory controllen (base + align32 message.length) messages

def WellFormed (order : ByteOrder) (stream : List UInt8) (messages : List Message) : Prop :=
  LaidOut order stream stream.length 0 messages

def offsets : Nat → List Message → List Nat
  | _, [] => []
  | base, message :: messages => base :: offsets (base + align32 message.length) messages

def Message.IsTimestamp (message : Message) : Prop :=
  message.level.toNat = solSocket ∧ message.type.toNat = scmTimestamp

instance (message : Message) : Decidable message.IsTimestamp :=
  inferInstanceAs (Decidable (_ ∧ _))

def Message.NeedsAdjustment (message : Message) : Prop :=
  message.IsTimestamp ∧ message.payload.length ≠ sizeofTimeval

instance (message : Message) : Decidable message.NeedsAdjustment :=
  inferInstanceAs (Decidable (_ ∧ _))

def Message.newLength (message : Message) : Nat :=
  if message.IsTimestamp then sizeofCmsghdr + sizeofTimeval else message.length

theorem Message.newLength_timestamp {message : Message} (stamp : message.IsTimestamp) :
    message.newLength = sizeofCmsghdr + sizeofTimeval := if_pos stamp

theorem Message.newLength_other {message : Message} (other : ¬ message.IsTimestamp) :
    message.newLength = message.length := if_neg other

def newLengths (messages : List Message) : Nat := (messages.map Message.newLength).sum

@[simp] theorem Cmsghdr.length_bytes (order : ByteOrder) (header : Cmsghdr) :
    (header.bytes order).length = sizeofCmsghdr := by
  simp [Cmsghdr.bytes]

@[simp] theorem Message.length_bytes (order : ByteOrder) (message : Message) :
    (message.bytes order).length = message.length := by
  simp [Message.bytes, Message.length]

theorem Message.length_ge (message : Message) : sizeofCmsghdr ≤ message.length :=
  Nat.le_add_right _ _

theorem le_align32 (length : Nat) : length ≤ align32 length := by
  simp only [align32]
  omega

theorem align32_of_aligned {length : Nat} (aligned : length % 4 = 0) : align32 length = length := by
  simp only [align32]
  omega

/-! ## Walking -/

theorem readCmsghdr_bytes {order : ByteOrder} {header : Cmsghdr} (len : header.cmsgLen < 2 ^ 32)
    (level : header.cmsgLevel < 2 ^ 32) (type : header.cmsgType < 2 ^ 32) (rest : List UInt8) :
    readCmsghdr order (header.bytes order ++ rest) 0 = header := by
  have first : slice (header.bytes order ++ rest) 0 4 = encode order 4 header.cmsgLen := by
    simp [slice, Cmsghdr.bytes]
  have second : slice (header.bytes order ++ rest) 4 4 = encode order 4 header.cmsgLevel := by
    simp [slice, Cmsghdr.bytes]
  have third : slice (header.bytes order ++ rest) 8 4 = encode order 4 header.cmsgType := by
    have behind : (encode order 4 header.cmsgLen ++ encode order 4 header.cmsgLevel).length = 8 := by
      simp
    simp only [slice, Cmsghdr.bytes, List.append_assoc]
    rw [← List.append_assoc, List.drop_left' behind, List.take_left' (length_encode _ _ _)]
  simp only [readCmsghdr, Nat.zero_add, first, second, third]
  rw [decode_encode len, decode_encode level, decode_encode type]

theorem readCmsghdr_slice (order : ByteOrder) (memory : List UInt8) (base : Nat) {length : Nat}
    (room : 12 ≤ length) :
    readCmsghdr order memory base = readCmsghdr order (slice memory base length) 0 := by
  simp only [readCmsghdr, Nat.zero_add]
  rw [slice_slice memory (by omega), slice_slice memory (by omega), slice_slice memory (by omega)]
  rfl

theorem readCmsghdr_message {order : ByteOrder} {memory : List UInt8} {base : Nat}
    {message : Message} (fits : message.length < 2 ^ 32)
    (placed : slice memory base message.length = message.bytes order) :
    readCmsghdr order memory base = message.header := by
  rw [readCmsghdr_slice order memory base message.length_ge, placed]
  exact readCmsghdr_bytes fits message.level.toNat_lt message.type.toNat_lt message.payload

theorem payload_message {order : ByteOrder} {memory : List UInt8} {base : Nat}
    {message : Message} (placed : slice memory base message.length = message.bytes order) :
    slice memory (cmsgData base) message.payload.length = message.payload := by
  have whole : 12 + message.payload.length ≤ message.length := Nat.le_refl _
  have data : cmsgData base = base + 12 := rfl
  rw [data, ← slice_slice memory whole, placed, Message.bytes]
  have shift := slice_append_right (message.header.bytes order) message.payload 0
    message.payload.length
  rw [Cmsghdr.length_bytes, slice_zero_length] at shift
  exact shift

theorem cmsgWalk_laidOut {order : ByteOrder} {msg : Msghdr} {messages : List Message}
    {base fuel : Nat} (laidOut : LaidOut order msg.memory msg.msgControllen base messages)
    (enough : msg.msgControllen < base + fuel) :
    cmsgWalk order msg fuel (headerAt msg base) = some (offsets base messages) := by
  induction messages generalizing base fuel with
  | nil =>
      have none_left : headerAt msg base = none := if_pos laidOut
      rw [none_left, cmsgWalk.eq_1]
      rfl
  | cons message messages ih =>
      obtain ⟨inside, fits, placed, rest⟩ := laidOut
      have long : 12 ≤ message.length := message.length_ge
      have here : headerAt msg base = some base := if_neg (show ¬ _ < base + 12 by omega)
      have next := le_align32 message.length
      cases fuel with
      | zero => omega
      | succ fuel =>
          rw [here, cmsgWalk, cmsgNxthdr, readCmsghdr_message fits placed]
          simp only [Message.header]
          rw [ih rest (by omega)]
          rfl

theorem cmsgHeaders_laidOut {order : ByteOrder} {msg : Msghdr} {messages : List Message}
    (laidOut : LaidOut order msg.memory msg.msgControllen 0 messages) :
    cmsgHeaders order msg = some (offsets 0 messages) :=
  cmsgWalk_laidOut laidOut (by omega)

def concat (order : ByteOrder) (messages : List Message) : List UInt8 :=
  messages.flatMap (Message.bytes order)

@[simp] theorem concat_nil (order : ByteOrder) : concat order [] = [] := rfl

@[simp] theorem concat_cons (order : ByteOrder) (message : Message) (messages : List Message) :
    concat order (message :: messages) = message.bytes order ++ concat order messages := rfl

theorem laidOut_concat (order : ByteOrder) (messages : List Message) (before after : List UInt8)
    (fits : ∀ message ∈ messages, message.length < 2 ^ 32)
    (aligned : ∀ message ∈ messages.dropLast, message.length % 4 = 0) :
    LaidOut order (before ++ concat order messages ++ after)
      (before.length + (concat order messages).length) before.length messages := by
  induction messages generalizing before with
  | nil =>
      change before.length + 0 < before.length + 12
      omega
  | cons message messages ih =>
      have placed := slice_append before (message.bytes order) (concat order messages ++ after)
      rw [Message.length_bytes] at placed
      simp only [concat_cons, List.append_assoc, List.length_append, Message.length_bytes] at placed ⊢
      refine ⟨by omega, fits message (by simp), placed, ?_⟩
      cases messages with
      | nil =>
          have padded := le_align32 message.length
          change _ < _ + 12
          simp only [concat_nil, List.length_nil]
          omega
      | cons next rest =>
          have same := align32_of_aligned (aligned message (by simp))
          have later := ih (before ++ message.bytes order)
            (fun later member => fits later (by simp [member]))
            (fun later member => aligned later (by
              rw [List.dropLast_cons_of_ne_nil (by simp)]
              simp [member]))
          rw [same]
          simpa [Nat.add_assoc] using later

theorem wellFormed_concat (order : ByteOrder) (messages : List Message)
    (fits : ∀ message ∈ messages, message.length < 2 ^ 32)
    (aligned : ∀ message ∈ messages.dropLast, message.length % 4 = 0) :
    WellFormed order (concat order messages) messages := by
  have laidOut := laidOut_concat order messages [] [] fits aligned
  rw [List.nil_append, List.append_nil, List.length_nil, Nat.zero_add] at laidOut
  exact laidOut

/-! ## The first pass -/

def Message.counted (message : Message) : Nat :=
  if message.level.toNat = solSocket then message.newLength else 0

theorem int_adjustment {length : Nat} (long : 12 ≤ length) (fits : length < 2 ^ 32) :
    int ((sizeofTimeval : Int) - ((length : Int) - align32 sizeofCmsghdr)) = 0 ↔ length = 28 := by
  have header : align32 sizeofCmsghdr = 12 := rfl
  have timeval : sizeofTimeval = 16 := rfl
  rw [int_eq, header, timeval]
  omega

theorem checkStep_message (order : ByteOrder) {memory : List UInt8} {base : Nat}
    {message : Message} (fits : message.length < 2 ^ 32)
    (placed : slice memory base message.length = message.bytes order) (adjusted : Bool)
    (total : Nat) :
    checkStep order memory (adjusted, total % 2 ^ 32) base =
      (adjusted || decide message.NeedsAdjustment, (total + message.counted) % 2 ^ 32) := by
  have header := readCmsghdr_message fits placed
  have long : 12 ≤ message.length := message.length_ge
  have length : message.length = 12 + message.payload.length := rfl
  have adjustment := int_adjustment long fits
  simp only [checkStep, header, Message.header, Message.counted, Message.newLength,
    Message.NeedsAdjustment, Message.IsTimestamp, cmsgDatalen]
  by_cases socket : message.level.toNat = solSocket
  · by_cases stamp : message.type.toNat = scmTimestamp
    · simp only [socket, stamp, if_true, true_and, and_self]
      have payload : message.payload.length ≠ sizeofTimeval ↔ ¬ message.length = 28 := by
        rw [length]
        simp only [sizeofTimeval]
        omega
      simp only [payload, ← adjustment]
      refine Prod.ext ?_ ?_
      · generalize int ((sizeofTimeval : Int) - (message.length - align32 sizeofCmsghdr)) = lenadj
        by_cases same : lenadj = 0 <;> simp [same]
      · have header : align32 sizeofCmsghdr = 12 := rfl
        simp only [toUnsigned, int_eq, header, sizeofTimeval, sizeofCmsghdr]
        omega
    · simp [socket, stamp, toUnsigned]
      omega
  · simp [socket]

def countedLengths (messages : List Message) : Nat := (messages.map Message.counted).sum

theorem checkSteps_laidOut {order : ByteOrder} {memory : List UInt8} {controllen base : Nat}
    {messages : List Message} (laidOut : LaidOut order memory controllen base messages)
    (adjusted : Bool) (total : Nat) :
    (offsets base messages).foldl (checkStep order memory) (adjusted, total % 2 ^ 32) =
      (adjusted || messages.any (decide ·.NeedsAdjustment),
        (total + countedLengths messages) % 2 ^ 32) := by
  induction messages generalizing base adjusted total with
  | nil => simp [offsets, countedLengths]
  | cons message messages ih =>
      obtain ⟨_, fits, placed, rest⟩ := laidOut
      rw [offsets, List.foldl_cons, checkStep_message order fits placed, ih rest]
      simp [countedLengths, Bool.or_assoc, Nat.add_assoc]

theorem checkCmsgLengths_laidOut {order : ByteOrder} {memory : List UInt8} {controllen : Nat}
    {messages : List Message} (laidOut : LaidOut order memory controllen 0 messages) :
    checkCmsgLengths order memory (offsets 0 messages) =
      (messages.any (decide ·.NeedsAdjustment), countedLengths messages % 2 ^ 32) := by
  have fold := checkSteps_laidOut laidOut false 0
  simpa [checkCmsgLengths] using fold

/-! ## The second pass -/

theorem length_writeTimeval (order : ByteOrder) (tv : Timeval) {old : List UInt8}
    (room : old.length = sizeofTimeval) : (writeTimeval order tv old).length = sizeofTimeval := by
  simp [writeTimeval, room, sizeofTimeval]

def nativeTimestamp (order : ByteOrder) (payload old : List UInt8) : List UInt8 :=
  if payload.length = sizeofTimeval then payload
  else if payload.length = 8 then writeTimeval order (readTimeval3232 order payload) old
  else if payload.length = 12 then writeTimeval order (readTimeval6432 order payload) old
  else List.replicate sizeofTimeval 0

theorem length_nativeTimestamp (order : ByteOrder) (payload : List UInt8) {old : List UInt8}
    (room : old.length = sizeofTimeval) :
    (nativeTimestamp order payload old).length = sizeofTimeval := by
  unfold nativeTimestamp
  split_ifs with native
  · exact native
  · exact length_writeTimeval order _ room
  · exact length_writeTimeval order _ room
  · exact List.length_replicate

theorem fetchCmsgTimeval_message {order : ByteOrder} {memory : List UInt8} {base : Nat}
    {message : Message} (fits : message.length < 2 ^ 32)
    (placed : slice memory base message.length = message.bytes order) (old : List UInt8) :
    fetchCmsgTimeval order memory base old = nativeTimestamp order message.payload old := by
  have header := readCmsghdr_message fits placed
  have payload := payload_message placed
  have length : message.length = 12 + message.payload.length := rfl
  have datalen : ∀ size : Nat, size < 2 ^ 31 →
      (int (cmsgDatalen message.header) = size ↔ message.payload.length = size) := by
    intro size small
    have start : align32 sizeofCmsghdr = 12 := rfl
    simp only [cmsgDatalen, Message.header, int_eq, start]
    omega
  have within : ∀ start count : Nat, start + count ≤ message.payload.length →
      slice (memory.drop (cmsgData base)) start count = slice message.payload start count := by
    intro start count inside
    rw [slice_drop, ← slice_slice memory inside, payload]
  simp only [fetchCmsgTimeval, header, nativeTimestamp]
  have native := datalen sizeofTimeval (by decide)
  have packed32 := datalen 8 (by decide)
  have packed64 := datalen 12 (by decide)
  simp only [Nat.cast_ofNat] at packed32 packed64
  simp only [native, packed32, packed64]
  split_ifs with same short mixed
  · rw [same] at payload
    exact payload
  · simp only [readTimeval3232, within 0 4 (by omega), within 4 4 (by omega)]
  · simp only [readTimeval6432, within 0 8 (by omega), within 8 4 (by omega)]
  · rfl

theorem fixStep_length (order : ByteOrder) {memory : List UInt8} {base : Nat}
    {message : Message} (fits : message.length < 2 ^ 32)
    (placed : slice memory base message.length = message.bytes order) (cbuf : Nat → UInt8)
    (written : List UInt8) :
    (fixStep order memory cbuf written base).length = written.length + message.newLength := by
  have header := readCmsghdr_message fits placed
  have copied : (slice memory base message.length).length = message.length := by
    rw [placed, Message.length_bytes]
  simp only [fixStep, header, Message.header]
  split
  next stamp =>
    rw [List.length_append, List.length_append, Cmsghdr.length_bytes,
      fetchCmsgTimeval_message fits placed, length_nativeTimestamp order _ (by simp),
      Nat.add_assoc, Message.newLength_timestamp stamp]
  next other => rw [List.length_append, copied, Message.newLength_other other]

theorem fixSteps_length {order : ByteOrder} {memory : List UInt8} {controllen base : Nat}
    {messages : List Message} (laidOut : LaidOut order memory controllen base messages)
    (cbuf : Nat → UInt8) (written : List UInt8) :
    ((offsets base messages).foldl (fixStep order memory cbuf) written).length =
      written.length + newLengths messages := by
  induction messages generalizing base written with
  | nil => simp [offsets, newLengths]
  | cons message messages ih =>
      obtain ⟨_, fits, placed, rest⟩ := laidOut
      rw [offsets, List.foldl_cons, ih rest, fixStep_length order fits placed]
      simp [newLengths, Nat.add_assoc]

/-! ## Receiving -/

theorem counted_le (message : Message) : message.counted ≤ message.newLength := by
  unfold Message.counted
  split
  · exact Nat.le_refl _
  · exact Nat.zero_le _

theorem countedLengths_le (messages : List Message) :
    countedLengths messages ≤ newLengths messages := by
  induction messages with
  | nil => exact Nat.le_refl _
  | cons message messages ih =>
      have first := counted_le message
      simp only [countedLengths, newLengths, List.map_cons, List.sum_cons] at ih ⊢
      omega

theorem newLength_pos (message : Message) : 0 < message.newLength := by
  by_cases stamp : message.IsTimestamp
  · rw [Message.newLength_timestamp stamp]
    decide
  · have long : 12 ≤ message.length := message.length_ge
    rw [Message.newLength_other stamp]
    omega

theorem countedLengths_eq_iff (messages : List Message) :
    countedLengths messages = newLengths messages ↔
      ∀ message ∈ messages, message.level.toNat = solSocket := by
  induction messages with
  | nil => simp [countedLengths, newLengths]
  | cons message messages ih =>
      have rest := countedLengths_le messages
      have positive := newLength_pos message
      simp only [List.forall_mem_cons, ← ih]
      simp only [countedLengths, newLengths, List.map_cons, List.sum_cons] at rest ⊢
      by_cases socket : message.level.toNat = solSocket
      · simp only [Message.counted, socket, if_true, true_and]
        omega
      · simp only [Message.counted, socket, if_false, false_and, iff_false]
        omega

structure Bounded (room : Nat) (report : Report) : Prop where
  inside : ∀ written ∈ report.fixed.written, written.length ≤ sizeofCbuf
  predicted : ∀ written ∈ report.fixed.written, written.length = report.predicted
  copied : report.fixed.copiedBack ≤ room

/-- When the second pass writes what the first one counted: nothing needs adjusting, the count
does not fit, or all messages are of the level that is counted and the count does not wrap. -/
def Countable (messages : List Message) (room : Nat) : Prop :=
  (∀ message ∈ messages, ¬ message.NeedsAdjustment) ∨
    min room sizeofCbuf < countedLengths messages % 2 ^ 32 ∨
    (∀ message ∈ messages, message.level.toNat = solSocket) ∧ newLengths messages < 2 ^ 32

theorem fixCmsgFormats_bounded_iff {order : ByteOrder} {msg : Msghdr} {messages : List Message}
    (laidOut : LaidOut order msg.memory msg.msgControllen 0 messages) (cbuf : Nat → UInt8)
    {room predicted : Nat} (fits : predicted ≤ room) (ret : Int) :
    Bounded room ⟨ret, predicted, fixCmsgFormats order cbuf msg (offsets 0 messages) predicted⟩ ↔
      sizeofCbuf < predicted ∨ newLengths messages = predicted := by
  have written := fixSteps_length laidOut cbuf []
  rw [List.length_nil, Nat.zero_add] at written
  unfold fixCmsgFormats
  split
  next large => exact iff_of_true ⟨by simp, by simp, by simp⟩ (Or.inl large)
  next small =>
    simp only [written]
    split
    next differs =>
      refine iff_of_false (fun bounded => ?_) (by omega)
      have same := bounded.predicted _ rfl
      rw [written] at same
      exact differs same
    next agrees =>
      have same : newLengths messages = predicted := by omega
      refine iff_of_true ⟨?_, ?_, fits⟩ (Or.inr same)
      · rintro _ ⟨⟩
        rw [written]
        omega
      · rintro _ ⟨⟩
        rw [written]
        exact same

theorem wellFormed_nil {order : ByteOrder} {messages : List Message}
    (wellFormed : WellFormed order [] messages) : messages = [] := by
  cases messages with
  | nil => rfl
  | cons message messages =>
      have room := wellFormed.1
      have long : 12 ≤ message.length := message.length_ge
      rw [List.length_nil] at room
      omega

theorem LaidOut.append {order : ByteOrder} {stream : List UInt8} {controllen base : Nat}
    {messages : List Message} (laidOut : LaidOut order stream controllen base messages)
    (inside : controllen ≤ stream.length) (rest : List UInt8) :
    LaidOut order (stream ++ rest) controllen base messages := by
  induction messages generalizing base with
  | nil => exact laidOut
  | cons message messages ih =>
      obtain ⟨room, fits, placed, later⟩ := laidOut
      refine ⟨room, fits, ?_, ih later⟩
      rw [slice_append_left stream rest (by omega)]
      exact placed

theorem stream_nonempty {message : Msghdr} {stream : List UInt8}
    (nonempty : ¬ (message.receive stream).msgControllen = 0) : stream ≠ [] := by
  intro nothing
  exact nonempty (by simp [Msghdr.receive, nothing])

theorem control_present {message : Msghdr} (reply : Reply message.initControllen)
    (some_control : reply.stream ≠ []) : ∃ memory, message.msgControl = some memory := by
  have fits := reply.fits
  have positive := List.length_pos_of_ne_nil some_control
  cases control : message.msgControl with
  | none =>
      have room : message.initControllen = 0 := by simp [Msghdr.initControllen, control]
      omega
  | some memory => exact ⟨memory, rfl⟩

theorem receive_laidOut {order : ByteOrder} {message : Msghdr}
    (reply : Reply message.initControllen) {messages : List Message}
    (wellFormed : WellFormed order reply.stream messages) (some_control : reply.stream ≠ []) :
    LaidOut order (message.receive reply.stream).memory
      (message.receive reply.stream).msgControllen 0 messages := by
  obtain ⟨memory, control⟩ := control_present reply some_control
  have received : (message.receive reply.stream).memory =
      reply.stream ++ memory.drop reply.stream.length := by
    simp [Msghdr.receive, Msghdr.memory, control]
  rw [received]
  exact LaidOut.append wellFormed (Nat.le_refl _) _

theorem countable_iff {messages : List Message} {room : Nat}
    (adjusts : ∃ message ∈ messages, message.NeedsAdjustment)
    (fits : countedLengths messages % 2 ^ 32 ≤ room) :
    Countable messages room ↔ sizeofCbuf < countedLengths messages % 2 ^ 32 ∨
      newLengths messages = countedLengths messages % 2 ^ 32 := by
  have counted := countedLengths_le messages
  have needed : ¬ ∀ message ∈ messages, ¬ message.NeedsAdjustment := by
    obtain ⟨message, member, adjusts⟩ := adjusts
    exact fun none_needed => none_needed message member adjusts
  have small : min room sizeofCbuf < countedLengths messages % 2 ^ 32 ↔
      sizeofCbuf < countedLengths messages % 2 ^ 32 := by
    omega
  simp only [Countable, needed, false_or, small, ← countedLengths_eq_iff]
  omega

/-- Receiving a well-formed stream ends, and stays within the bounds exactly when the call
fails or the stream is one whose messages are all counted. -/
theorem recvmsg_bounded_iff {order : ByteOrder} {message : Msghdr}
    {reply : Reply message.initControllen} {messages : List Message}
    (wellFormed : WellFormed order reply.stream messages) (cbuf : Nat → UInt8) :
    ∃ report, recvmsgInternal order cbuf message reply = some report ∧
      (Bounded message.initControllen report ↔
        reply.ret < 0 ∨ Countable messages message.initControllen) := by
  unfold recvmsgInternal
  split
  next failed =>
    exact ⟨_, rfl, iff_of_true ⟨by simp, by simp, by simp⟩ (Or.inl failed)⟩
  next received =>
    simp only
    split
    next empty =>
      have nothing : reply.stream = [] := List.eq_nil_of_length_eq_zero empty
      rw [nothing] at wellFormed
      refine ⟨_, rfl, iff_of_true ⟨by simp, by simp, by simp⟩ (Or.inr (Or.inl ?_))⟩
      simp [wellFormed_nil wellFormed]
    next nonempty =>
      have some_control := stream_nonempty nonempty
      have laidOut := receive_laidOut reply wellFormed some_control
      rw [cmsgHeaders_laidOut laidOut, Option.map_some, checkCmsgLengths_laidOut laidOut]
      refine ⟨_, rfl, ?_⟩
      simp only [received, false_or]
      split
      next attempted =>
        obtain ⟨adjusts, fits⟩ := attempted
        rw [fixCmsgFormats_bounded_iff laidOut cbuf fits, countable_iff ?_ fits]
        simpa using adjusts
      next skipped =>
        refine iff_of_true ⟨by simp, by simp, by simp⟩ ?_
        by_cases adjusts : ∃ message ∈ messages, message.NeedsAdjustment
        · right
          left
          have found : messages.any (decide ·.NeedsAdjustment) = true := by simpa using adjusts
          have large : ¬ countedLengths messages % 2 ^ 32 ≤ message.initControllen :=
            fun fits => skipped ⟨found, fits⟩
          omega
        · left
          intro message' member needed
          exact adjusts ⟨message', member, needed⟩

def foreignMessages : List Message :=
  [⟨0, 7, [1, 2, 3, 4]⟩, ⟨0xffff, 2, [1, 0, 0, 0, 2, 0, 0, 0]⟩]

def foreignMessage : Msghdr := ⟨some (List.replicate 64 0), 64⟩

def foreignReply : Reply foreignMessage.initControllen where
  ret := 0
  stream := concat .little foreignMessages
  fits := by decide

theorem foreignReply_wellFormed : WellFormed .little foreignReply.stream foreignMessages :=
  wellFormed_concat .little foreignMessages (by decide) (by decide)

theorem recvmsg_bounded_foreign :
    ∃ report, recvmsgInternal .little (fun _ => 0) foreignMessage foreignReply = some report ∧
      (Bounded foreignMessage.initControllen report ↔
        foreignReply.ret < 0 ∨ Countable foreignMessages foreignMessage.initControllen) :=
  recvmsg_bounded_iff foreignReply_wellFormed (fun _ => 0)

/-- The length predicted is that of the timestamp, and the other message is written as well. -/
theorem recvmsg_writes_uncounted :
    ¬ ∀ (order : ByteOrder) (message : Msghdr) (reply : Reply message.initControllen)
        (messages : List Message) (cbuf : Nat → UInt8),
      WellFormed order reply.stream messages →
      ∃ report, recvmsgInternal order cbuf message reply = some report ∧
        Bounded message.initControllen report := by
  intro always
  obtain ⟨report, returned, bounded⟩ :=
    always .little foreignMessage foreignReply foreignMessages (fun _ => 0) foreignReply_wellFormed
  have lengths : (recvmsgInternal .little (fun _ => 0) foreignMessage foreignReply).map
      (fun report => (report.predicted, report.fixed.written.map List.length)) =
        some (28, some 44) := by decide
  rw [returned] at lengths
  simp only [Option.map_some, Option.some.injEq, Prod.mk.injEq, Option.map_eq_some_iff] at lengths
  obtain ⟨predicted, written, same, length⟩ := lengths
  have agrees := bounded.predicted written same
  omega

end LegacySupport.Packet
