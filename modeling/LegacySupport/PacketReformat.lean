import LegacySupport.Packet

/-!
What a client finds in its control buffer after the format fix: the messages it would have
found, with native timestamps.
-/

namespace LegacySupport.Packet

open CInt Bytes

def readMessage (order : ByteOrder) (memory : List UInt8) (cmsg : Nat) : Message :=
  let header := readCmsghdr order memory cmsg
  { level := UInt32.ofNat header.cmsgLevel
    type := UInt32.ofNat header.cmsgType
    payload := slice memory (cmsgData cmsg) (cmsgDatalen header).toNat }

def cmsgMessages (order : ByteOrder) (msg : Msghdr) : Option (List Message) :=
  (cmsgHeaders order msg).map fun headers => headers.map (readMessage order msg.memory)

/-- A payload has become a native timestamp: the seconds and microseconds of a short form, a
native payload itself, and zero for any other length. -/
def BecomesNative (order : ByteOrder) (old new : List UInt8) : Prop :=
  new.length = sizeofTimeval ∧
    if old.length = sizeofTimeval then new = old
    else if old.length = 8 then readTimeval order new = readTimeval3232 order old
    else if old.length = 12 then readTimeval order new = readTimeval6432 order old
    else new = List.replicate sizeofTimeval 0

def Message.IsShort (message : Message) : Prop :=
  message.IsTimestamp ∧ (message.payload.length = 8 ∨ message.payload.length = 12)

instance (message : Message) : Decidable message.IsShort := inferInstanceAs (Decidable (_ ∧ _))

theorem short_needs {message : Message} (short : message.IsShort) : message.NeedsAdjustment := by
  refine ⟨short.1, fun native => ?_⟩
  rcases short.2 with eight | twelve <;> simp only [sizeofTimeval] at native <;> omega

/-- Short timestamps become native ones and every other payload stays as it is. -/
structure Preserved (order : ByteOrder) (old new : Message) : Prop where
  level : new.level = old.level
  type : new.type = old.type
  converted : old.IsShort → BecomesNative order old.payload new.payload
  kept : ¬ old.IsShort → new.payload = old.payload

/-- Nothing needs adjusting. Or, as messages of other levels are not counted and the attempt is
given up then, nothing is to be converted. Or every message is counted, no timestamp has a length
that is taken for invalid, and no message needs the padding that is not written. -/
def Reformattable (messages : List Message) : Prop :=
  (∀ message ∈ messages, ¬ message.NeedsAdjustment) ∨
    ((∃ message ∈ messages, message.level.toNat ≠ solSocket) ∧
      ∀ message ∈ messages, ¬ message.IsShort) ∨
    (∀ message ∈ messages, message.level.toNat = solSocket ∧
        (message.NeedsAdjustment → message.IsShort)) ∧
      ∀ message ∈ messages.dropLast, message.newLength % 4 = 0

/-! ## Walking the result -/

theorem readMessage_message {order : ByteOrder} {memory : List UInt8} {base : Nat}
    {message : Message} (fits : message.length < 2 ^ 32)
    (placed : slice memory base message.length = message.bytes order) :
    readMessage order memory base = message := by
  have datalen : (cmsgDatalen message.header).toNat = message.payload.length := by
    simp only [cmsgDatalen, Message.header, Message.length]
    change ((12 + message.payload.length : Nat) - 12 : Int).toNat = _
    omega
  simp only [readMessage, readCmsghdr_message fits placed, datalen, payload_message placed]
  simp [Message.header]

theorem cmsgMessages_laidOut {order : ByteOrder} {msg : Msghdr} {messages : List Message}
    (laidOut : LaidOut order msg.memory msg.msgControllen 0 messages) :
    cmsgMessages order msg = some messages := by
  have read : ∀ base, LaidOut order msg.memory msg.msgControllen base messages →
      (offsets base messages).map (readMessage order msg.memory) = messages := by
    clear laidOut
    induction messages with
    | nil => exact fun _ _ => rfl
    | cons message messages ih =>
        intro base ⟨_, fits, placed, rest⟩
        rw [offsets, List.map_cons, readMessage_message fits placed, ih _ rest]
  rw [cmsgMessages, cmsgHeaders_laidOut laidOut, Option.map_some, read 0 laidOut]

/-! ## Timestamps -/

theorem readTimeval_writeTimeval {order : ByteOrder} {tv : Timeval} (old : List UInt8)
    (sec : -2 ^ 63 ≤ tv.tvSec ∧ tv.tvSec < 2 ^ 63)
    (usec : -2 ^ 31 ≤ tv.tvUsec ∧ tv.tvUsec < 2 ^ 31) :
    readTimeval order (writeTimeval order tv old) = tv := by
  have first : slice (writeTimeval order tv old) 0 8 =
      encode order 8 (toUnsigned 64 tv.tvSec) := by
    simp [slice, writeTimeval]
  have second : slice (writeTimeval order tv old) 8 4 =
      encode order 4 (toUnsigned 32 tv.tvUsec) := by
    simp [slice, writeTimeval]
  have wide : toUnsigned 64 tv.tvSec < 256 ^ 8 := by
    simp only [toUnsigned]
    omega
  have narrow : toUnsigned 32 tv.tvUsec < 256 ^ 4 := by
    simp only [toUnsigned]
    omega
  rw [readTimeval, first, second, decode_encode wide, decode_encode narrow,
    toSigned_toUnsigned (by decide) sec.1 sec.2, toSigned_toUnsigned (by decide) usec.1 usec.2]

theorem decode_slice_lt (order : ByteOrder) (data : List UInt8) (offset count : Nat) :
    decode order (slice data offset count) < 256 ^ count := by
  have short : (slice data offset count).length ≤ count := List.length_take_le _ _
  exact Nat.lt_of_lt_of_le (decode_lt order _) (Nat.pow_le_pow_right (by decide) short)

theorem becomesNative_nativeTimestamp (order : ByteOrder) (payload : List UInt8) {old : List UInt8}
    (room : old.length = sizeofTimeval) :
    BecomesNative order payload (nativeTimestamp order payload old) := by
  refine ⟨length_nativeTimestamp order payload room, ?_⟩
  have usec := fun data => toSigned_range 32 (by decide) (decode order data)
  unfold nativeTimestamp
  split_ifs with native short mixed
  · rfl
  · have sec := decode_slice_lt order payload 0 4
    refine readTimeval_writeTimeval old ⟨?_, ?_⟩ (usec _)
    · simp only [readTimeval3232]
      omega
    · simp only [readTimeval3232]
      omega
  · exact readTimeval_writeTimeval old (toSigned_range 64 (by decide) _) (usec _)
  · rfl

/-! ## The messages written -/

def Message.rewritten (order : ByteOrder) (cbuf : Nat → UInt8) (position : Nat)
    (message : Message) : Message :=
  if message.IsTimestamp then
    { message with
      payload := nativeTimestamp order message.payload
        ((List.range sizeofTimeval).map fun i => cbuf (position + sizeofCmsghdr + i)) }
  else message

def rewrittenFrom (order : ByteOrder) (cbuf : Nat → UInt8) : Nat → List Message → List Message
  | _, [] => []
  | position, message :: messages =>
      message.rewritten order cbuf position ::
        rewrittenFrom order cbuf (position + message.newLength) messages

theorem rewritten_length (order : ByteOrder) (cbuf : Nat → UInt8) (position : Nat)
    (message : Message) : (message.rewritten order cbuf position).length = message.newLength := by
  unfold Message.rewritten Message.newLength
  split
  · rw [Message.length, length_nativeTimestamp order _ (by simp)]
  · rfl

theorem rewritten_preserved_iff (order : ByteOrder) (cbuf : Nat → UInt8) (position : Nat)
    (message : Message) :
    Preserved order message (message.rewritten order cbuf position) ↔
      (message.NeedsAdjustment → message.IsShort) := by
  unfold Message.rewritten
  split
  next stamp =>
    have room : ((List.range sizeofTimeval).map
        fun i => cbuf (position + sizeofCmsghdr + i)).length = sizeofTimeval := by simp
    have native := becomesNative_nativeTimestamp order message.payload room
    constructor
    · intro preserved needed
      by_contra other
      have same := congrArg List.length (preserved.kept other)
      rw [native.1] at same
      exact needed.2 same.symm
    · intro adjusts
      refine ⟨rfl, rfl, fun _ => native, fun other => ?_⟩
      have length : message.payload.length = sizeofTimeval := by
        by_contra differs
        exact other (adjusts ⟨stamp, differs⟩)
      exact if_pos length
  next other =>
    refine iff_of_true ⟨rfl, rfl, fun short => absurd short.1 other, fun _ => rfl⟩ fun needed => ?_
    exact absurd needed.1 other

theorem same_preserved_iff (order : ByteOrder) (message : Message) :
    Preserved order message message ↔ ¬ message.IsShort := by
  constructor
  · intro preserved short
    have length := (preserved.converted short).1
    rcases short.2 with eight | twelve <;> simp only [sizeofTimeval] at length <;> omega
  · intro long
    exact ⟨rfl, rfl, fun short => absurd short long, fun _ => rfl⟩

theorem rewrittenFrom_preserved_iff (order : ByteOrder) (cbuf : Nat → UInt8)
    (messages : List Message) : ∀ position,
    List.Forall₂ (Preserved order) messages (rewrittenFrom order cbuf position messages) ↔
      ∀ message ∈ messages, message.NeedsAdjustment → message.IsShort := by
  induction messages with
  | nil => exact fun _ => iff_of_true .nil fun message member => by cases member
  | cons message messages ih =>
      intro position
      rw [rewrittenFrom, List.forall₂_cons, rewritten_preserved_iff, ih, List.forall_mem_cons]

theorem fixStep_message (order : ByteOrder) {memory : List UInt8} {base : Nat}
    {message : Message} (fits : message.length < 2 ^ 32)
    (placed : slice memory base message.length = message.bytes order) (cbuf : Nat → UInt8)
    (written : List UInt8) :
    fixStep order memory cbuf written base =
      written ++ (message.rewritten order cbuf written.length).bytes order := by
  have header := readCmsghdr_message fits placed
  by_cases stamp : message.IsTimestamp
  · have native : (nativeTimestamp order message.payload ((List.range sizeofTimeval).map
        fun i => cbuf (written.length + sizeofCmsghdr + i))).length = sizeofTimeval :=
      length_nativeTimestamp order message.payload (by simp)
    have both : message.level.toNat = solSocket ∧ message.type.toNat = scmTimestamp := stamp
    simp only [fixStep, header, Message.header, if_pos both, fetchCmsgTimeval_message fits placed,
      Message.rewritten, if_pos stamp, Message.bytes, Message.length, native, List.append_assoc]
  · have neither : ¬ (message.level.toNat = solSocket ∧ message.type.toNat = scmTimestamp) := stamp
    simp only [fixStep, header, Message.header, if_neg neither, Message.rewritten, if_neg stamp,
      placed]

theorem fixSteps_laidOut {order : ByteOrder} {memory : List UInt8} {controllen base : Nat}
    {messages : List Message} (laidOut : LaidOut order memory controllen base messages)
    (cbuf : Nat → UInt8) (written : List UInt8) :
    (offsets base messages).foldl (fixStep order memory cbuf) written =
      written ++ concat order (rewrittenFrom order cbuf written.length messages) := by
  induction messages generalizing base written with
  | nil => simp [offsets, rewrittenFrom]
  | cons message messages ih =>
      obtain ⟨_, fits, placed, rest⟩ := laidOut
      rw [offsets, List.foldl_cons, fixStep_message order fits placed, ih rest]
      simp [rewrittenFrom, rewritten_length]

theorem rewrittenFrom_lengths (order : ByteOrder) (cbuf : Nat → UInt8) (position : Nat)
    (messages : List Message) :
    (rewrittenFrom order cbuf position messages).map Message.length =
      messages.map Message.newLength := by
  induction messages generalizing position with
  | nil => rfl
  | cons message messages ih => simp [rewrittenFrom, rewritten_length, ih]

theorem length_concat (order : ByteOrder) (messages : List Message) :
    (concat order messages).length = (messages.map Message.length).sum := by
  induction messages with
  | nil => rfl
  | cons message messages ih => simp [ih]

theorem length_rewritten (order : ByteOrder) (cbuf : Nat → UInt8) (messages : List Message) :
    (concat order (rewrittenFrom order cbuf 0 messages)).length = newLengths messages := by
  rw [length_concat, rewrittenFrom_lengths, newLengths]

theorem rewritten_wellFormed (order : ByteOrder) (cbuf : Nat → UInt8) {messages : List Message}
    (fits : newLengths messages < 2 ^ 32)
    (aligned : ∀ message ∈ messages.dropLast, message.newLength % 4 = 0) :
    WellFormed order (concat order (rewrittenFrom order cbuf 0 messages))
      (rewrittenFrom order cbuf 0 messages) := by
  have lengths := rewrittenFrom_lengths order cbuf 0 messages
  apply wellFormed_concat
  · intro message member
    have found : message.length ∈ messages.map Message.newLength := by
      rw [← lengths]
      exact List.mem_map_of_mem member
    have small := List.le_sum_of_mem found
    exact Nat.lt_of_le_of_lt small fits
  · intro message member
    have found : message.length ∈ (messages.map Message.newLength).dropLast := by
      rw [← lengths, ← List.map_dropLast]
      exact List.mem_map_of_mem member
    rw [← List.map_dropLast] at found
    obtain ⟨original, before, same⟩ := List.mem_map.mp found
    rw [← same]
    exact aligned original before

/-! ## Missing padding -/

theorem level_shifted {order : ByteOrder} {memory : List UInt8} {start shift : Nat}
    (positive : 0 < shift) (small : shift < 4)
    (here : slice memory start 4 = encode order 4 solSocket)
    (room : start + shift + 4 ≤ memory.length) :
    decode order (slice memory (start + shift) 4) ≠ solSocket := by
  intro same
  have there := encode_decode order (slice memory (start + shift) 4)
  rw [length_slice room, same] at there
  have overlap : ∀ i, shift + i < 4 →
      (encode order 4 solSocket)[shift + i]? = (encode order 4 solSocket)[i]? := by
    intro i inside
    calc (encode order 4 solSocket)[shift + i]?
        = memory[start + (shift + i)]? := by rw [← here, getElem?_slice inside]
      _ = memory[start + shift + i]? := by rw [Nat.add_assoc]
      _ = (encode order 4 solSocket)[i]? := by rw [there, getElem?_slice (by omega)]
  cases order with
  | little =>
      interval_cases shift
      · exact absurd (overlap 1 (by decide)) (by decide)
      · exact absurd (overlap 0 (by decide)) (by decide)
      · exact absurd (overlap 0 (by decide)) (by decide)
  | big =>
      interval_cases shift
      · exact absurd (overlap 1 (by decide)) (by decide)
      · exact absurd (overlap 0 (by decide)) (by decide)
      · exact absurd (overlap 0 (by decide)) (by decide)

theorem slice_level {order : ByteOrder} {memory : List UInt8} {base : Nat} {message : Message}
    (placed : slice memory base message.length = message.bytes order) :
    slice memory (base + 4) 4 = encode order 4 message.level.toNat := by
  have long : 12 ≤ message.length := message.length_ge
  rw [← slice_slice memory (show 4 + 4 ≤ message.length by omega), placed]
  simp [slice, Message.bytes, Cmsghdr.bytes, Message.header]

theorem cmsgWalk_head {order : ByteOrder} {msg : Msghdr} {fuel base : Nat} {headers : List Nat}
    (walked : cmsgWalk order msg fuel (headerAt msg base) = some headers)
    (some_left : headers.length ≠ 0) : base ∈ headers ∧ base + 12 ≤ msg.msgControllen := by
  by_cases room : base + sizeofCmsghdr > msg.msgControllen
  · have none_left : headerAt msg base = none := if_pos room
    rw [none_left, cmsgWalk.eq_1] at walked
    cases walked
    exact absurd rfl some_left
  · have here : headerAt msg base = some base := if_neg room
    rw [here] at walked
    cases fuel with
    | zero => cases walked
    | succ fuel =>
        rw [cmsgWalk, Option.map_eq_some_iff] at walked
        obtain ⟨later, -, rfl⟩ := walked
        exact ⟨List.mem_cons_self, Nat.not_lt.mp room⟩

theorem level_missed {order : ByteOrder} {memory : List UInt8} {base : Nat}
    {message next : Message} (unaligned : message.length % 4 ≠ 0)
    (follows : slice memory (base + message.length) next.length = next.bytes order)
    (level : next.level.toNat = solSocket)
    (room : base + align32 message.length + 8 ≤ memory.length) :
    (readCmsghdr order memory (base + align32 message.length)).cmsgLevel ≠ solSocket := by
  have padded := le_align32 message.length
  have shifted := @level_shifted order memory (base + message.length + 4)
    (align32 message.length - message.length) (by simp only [align32]; omega)
    (by simp only [align32]; omega) (by rw [slice_level follows, level]) (by omega)
  have position : base + message.length + 4 + (align32 message.length - message.length) =
      base + align32 message.length + 4 := by omega
  rw [position] at shifted
  exact shifted

/-- The walk comes to the level of a message too late, or ends before. -/
theorem cmsgWalk_misaligned {order : ByteOrder} (messages : List Message) :
    ∀ (before after : List UInt8) (msg : Msghdr) (fuel : Nat) (headers : List Nat),
      msg = ⟨some (before ++ concat order messages ++ after),
        before.length + (concat order messages).length⟩ →
      (∀ message ∈ messages, message.level.toNat = solSocket ∧ message.length < 2 ^ 32) →
      ¬ (∀ message ∈ messages.dropLast, message.length % 4 = 0) →
      cmsgWalk order msg fuel (headerAt msg before.length) = some headers →
      headers.length = messages.length →
      ∃ header ∈ headers, (readCmsghdr order msg.memory header).cmsgLevel ≠ solSocket := by
  induction messages with
  | nil =>
      intro before after msg fuel headers _ _ misaligned
      exact absurd (fun message member => by cases member) misaligned
  | cons message messages ih =>
      intro before after msg fuel headers same socket misaligned walked length
      have long : 12 ≤ message.length := message.length_ge
      have fits := (socket message List.mem_cons_self).2
      have memory : msg.memory =
          before ++ message.bytes order ++ (concat order messages ++ after) := by
        simp [same, Msghdr.memory]
      have controllen : msg.msgControllen =
          before.length + (message.length + (concat order messages).length) := by
        simp [same]
      have placed : slice msg.memory before.length message.length = message.bytes order := by
        have middle := slice_append before (message.bytes order) (concat order messages ++ after)
        rwa [Message.length_bytes, ← memory] at middle
      have here : headerAt msg before.length = some before.length :=
        if_neg (show ¬ _ < before.length + 12 by omega)
      cases fuel with
      | zero =>
          rw [here] at walked
          cases walked
      | succ fuel =>
          rw [here, cmsgWalk, cmsgNxthdr, readCmsghdr_message fits placed,
            Option.map_eq_some_iff] at walked
          obtain ⟨later, walked, rfl⟩ := walked
          simp only [Message.header] at walked
          rw [List.length_cons, List.length_cons, Nat.succ_inj] at length
          cases messages with
          | nil => exact absurd (fun message member => by cases member) misaligned
          | cons next rest =>
              by_cases aligned : message.length % 4 = 0
              · rw [align32_of_aligned aligned] at walked
                have position : (before ++ message.bytes order).length =
                    before.length + message.length := by simp
                rw [← position] at walked
                obtain ⟨header, member, level⟩ := ih (before ++ message.bytes order) after msg fuel
                  later (by rw [same]; simp [Nat.add_assoc])
                  (fun other member => socket other (List.mem_cons_of_mem _ member))
                  (fun rest_aligned => misaligned fun other member => by
                    rw [List.dropLast_cons_of_ne_nil (List.cons_ne_nil _ _)] at member
                    rcases List.mem_cons.mp member with rfl | member
                    · exact aligned
                    · exact rest_aligned other member) walked length
                exact ⟨header, List.mem_cons_of_mem _ member, level⟩
              · obtain ⟨member, room⟩ := cmsgWalk_head walked (by simp [length])
                have level := (socket next (List.mem_cons_of_mem _ List.mem_cons_self)).1
                have follows : slice msg.memory (before.length + message.length) next.length =
                    next.bytes order := by
                  have middle := slice_append (before ++ message.bytes order) (next.bytes order)
                    (concat order rest ++ after)
                  simp only [List.length_append, Message.length_bytes] at middle
                  rw [memory, concat_cons]
                  simpa using middle
                refine ⟨_, List.mem_cons_of_mem _ member, level_missed aligned follows level ?_⟩
                rw [memory]
                simp only [List.length_append, Message.length_bytes]
                omega

/-! ## Receiving -/

theorem fixCmsgFormats_written {order : ByteOrder} {msg : Msghdr} {memory : List UInt8}
    {messages : List Message}
    (laidOut : LaidOut order msg.memory msg.msgControllen 0 messages)
    (control : msg.msgControl = some memory) (cbuf : Nat → UInt8)
    (fits : newLengths messages ≤ sizeofCbuf) :
    (fixCmsgFormats order cbuf msg (offsets 0 messages) (newLengths messages)).message =
      ⟨some (concat order (rewrittenFrom order cbuf 0 messages) ++
        memory.drop (newLengths messages)), newLengths messages⟩ := by
  have written := fixSteps_laidOut laidOut cbuf []
  rw [List.nil_append, List.length_nil] at written
  have length := length_rewritten order cbuf messages
  unfold fixCmsgFormats
  rw [if_neg (Nat.not_lt.mpr fits), written, control]
  simp only [length, ne_eq, not_true_eq_false, if_false, Option.map_some]

theorem fixCmsgFormats_unequal {order : ByteOrder} {msg : Msghdr} {messages : List Message}
    (laidOut : LaidOut order msg.memory msg.msgControllen 0 messages) (cbuf : Nat → UInt8)
    {newControllen : Nat} (differs : newLengths messages ≠ newControllen) :
    (fixCmsgFormats order cbuf msg (offsets 0 messages) newControllen).message = msg := by
  have written := fixSteps_length laidOut cbuf []
  rw [List.length_nil, Nat.zero_add] at written
  unfold fixCmsgFormats
  split
  · rfl
  · simp only [written]
    rw [if_pos differs]

theorem countedLengths_lt {messages : List Message} (fits : newLengths messages < 2 ^ 32) :
    countedLengths messages % 2 ^ 32 = countedLengths messages :=
  Nat.mod_eq_of_lt (Nat.lt_of_le_of_lt (countedLengths_le messages) fits)

theorem recvmsg_received {order : ByteOrder} {message : Msghdr}
    {reply : Reply message.initControllen} {messages : List Message}
    (wellFormed : WellFormed order reply.stream messages) (success : 0 ≤ reply.ret)
    (cbuf : Nat → UInt8) (fits : (∃ message ∈ messages, message.NeedsAdjustment) →
      newLengths messages ≤ message.initControllen ∧ newLengths messages ≤ sizeofCbuf) :
    ∃ report, recvmsgInternal order cbuf message reply = some report ∧
      if (∃ message ∈ messages, message.NeedsAdjustment) ∧
          ∀ message ∈ messages, message.level.toNat = solSocket then
        ∃ rest, report.fixed.message =
          ⟨some (concat order (rewrittenFrom order cbuf 0 messages) ++ rest), newLengths messages⟩
      else cmsgMessages order report.fixed.message = some messages := by
  have small : sizeofCbuf = 1024 := rfl
  unfold recvmsgInternal
  rw [if_neg (by omega)]
  simp only
  split
  next empty =>
    have nothing : reply.stream = [] := List.eq_nil_of_length_eq_zero empty
    rw [nothing] at wellFormed
    have same := wellFormed_nil wellFormed
    subst same
    have nothing_left : LaidOut order (message.receive reply.stream).memory
        (message.receive reply.stream).msgControllen 0 [] := by
      change (message.receive reply.stream).msgControllen < 0 + 12
      omega
    refine ⟨_, rfl, ?_⟩
    rw [if_neg (by simp)]
    exact cmsgMessages_laidOut nothing_left
  next nonempty =>
    have some_control := stream_nonempty nonempty
    have laidOut := receive_laidOut reply wellFormed some_control
    rw [cmsgHeaders_laidOut laidOut, Option.map_some, checkCmsgLengths_laidOut laidOut]
    refine ⟨_, rfl, ?_⟩
    by_cases adjusts : ∃ message ∈ messages, message.NeedsAdjustment
    · obtain ⟨fitsCaller, fitsBuffer⟩ := fits adjusts
      have found : messages.any (decide ·.NeedsAdjustment) = true := by simpa using adjusts
      have counted := countedLengths_le messages
      have attempted : messages.any (decide ·.NeedsAdjustment) = true ∧
          countedLengths messages ≤ message.initControllen := ⟨found, by omega⟩
      rw [countedLengths_lt (by omega)]
      dsimp only
      rw [if_pos attempted]
      by_cases socket : ∀ message ∈ messages, message.level.toNat = solSocket
      · rw [if_pos (And.intro adjusts socket), (countedLengths_eq_iff messages).mpr socket]
        obtain ⟨memory, control⟩ := control_present reply some_control
        exact ⟨_, fixCmsgFormats_written laidOut (by rw [Msghdr.receive, control]; rfl) cbuf
          fitsBuffer⟩
      · have differs := mt (countedLengths_eq_iff messages).mp socket
        rw [if_neg fun both => socket both.2]
        rw [fixCmsgFormats_unequal laidOut cbuf (Ne.symm differs)]
        exact cmsgMessages_laidOut laidOut
    · have unneeded : ¬ messages.any (decide ·.NeedsAdjustment) = true := by simpa using adjusts
      dsimp only
      rw [if_neg fun attempted : _ ∧ countedLengths messages % 2 ^ 32 ≤ _ => unneeded attempted.1,
        if_neg fun both => adjusts both.1]
      exact cmsgMessages_laidOut laidOut

theorem rewritten_aligned_iff (order : ByteOrder) (cbuf : Nat → UInt8) (messages : List Message) :
    (∀ message ∈ (rewrittenFrom order cbuf 0 messages).dropLast, message.length % 4 = 0) ↔
      ∀ message ∈ messages.dropLast, message.newLength % 4 = 0 := by
  have lengths := congrArg List.dropLast (rewrittenFrom_lengths order cbuf 0 messages)
  rw [← List.map_dropLast, ← List.map_dropLast] at lengths
  have all : ∀ {α : Type} (values : List α) (width : α → Nat),
      (∀ value ∈ values, width value % 4 = 0) ↔ ∀ length ∈ values.map width, length % 4 = 0 := by
    intro α values width
    rw [List.forall_mem_map]
  rw [all, lengths, ← all]

theorem rewritten_level (order : ByteOrder) (cbuf : Nat → UInt8) (messages : List Message) :
    ∀ position, (rewrittenFrom order cbuf position messages).map Message.level =
      messages.map Message.level := by
  induction messages with
  | nil => exact fun _ => rfl
  | cons message messages ih =>
      intro position
      have same : (message.rewritten order cbuf position).level = message.level := by
        unfold Message.rewritten
        split <;> rfl
      rw [rewrittenFrom, List.map_cons, List.map_cons, same, ih]

theorem rewritten_socket (order : ByteOrder) (cbuf : Nat → UInt8) {messages : List Message}
    (fits : newLengths messages < 2 ^ 32)
    (socket : ∀ message ∈ messages, message.level.toNat = solSocket) :
    ∀ written ∈ rewrittenFrom order cbuf 0 messages,
      written.level.toNat = solSocket ∧ written.length < 2 ^ 32 := by
  intro written member
  have levels : written.level ∈ messages.map Message.level := by
    rw [← rewritten_level order cbuf messages 0]
    exact List.mem_map_of_mem member
  have widths : written.length ∈ messages.map Message.newLength := by
    rw [← rewrittenFrom_lengths order cbuf 0]
    exact List.mem_map_of_mem member
  obtain ⟨original, among, same⟩ := List.mem_map.mp levels
  rw [← same]
  exact ⟨socket original among, Nat.lt_of_le_of_lt (List.le_sum_of_mem widths) fits⟩

theorem readMessage_level (order : ByteOrder) (memory : List UInt8) (cmsg : Nat) :
    (readMessage order memory cmsg).level.toNat = (readCmsghdr order memory cmsg).cmsgLevel :=
  UInt32.toNat_ofNat_of_lt' (decode_slice_lt order memory (cmsg + 4) 4)

theorem preserved_of_mem {order : ByteOrder} {messages received : List Message}
    (preserved : List.Forall₂ (Preserved order) messages received) {new : Message}
    (member : new ∈ received) : ∃ old ∈ messages, Preserved order old new := by
  induction preserved with
  | nil => cases member
  | cons first rest ih =>
      rcases List.mem_cons.mp member with rfl | later
      · exact ⟨_, List.mem_cons_self, first⟩
      · obtain ⟨old, original, kept⟩ := ih later
        exact ⟨old, List.mem_cons_of_mem _ original, kept⟩

theorem written_preserved_iff {order : ByteOrder} (cbuf : Nat → UInt8) {messages : List Message}
    (fits : newLengths messages ≤ sizeofCbuf)
    (socket : ∀ message ∈ messages, message.level.toNat = solSocket) (rest : List UInt8) :
    (∃ received, cmsgMessages order
        ⟨some (concat order (rewrittenFrom order cbuf 0 messages) ++ rest), newLengths messages⟩ =
          some received ∧ List.Forall₂ (Preserved order) messages received) ↔
      (∀ message ∈ messages, message.NeedsAdjustment → message.IsShort) ∧
        ∀ message ∈ messages.dropLast, message.newLength % 4 = 0 := by
  have small : sizeofCbuf = 1024 := rfl
  have length := length_rewritten order cbuf messages
  rw [← rewritten_aligned_iff order cbuf]
  constructor
  · rintro ⟨received, walked, preserved⟩
    by_cases aligned : ∀ message ∈ (rewrittenFrom order cbuf 0 messages).dropLast,
        message.length % 4 = 0
    · have laidOut := LaidOut.append (rewritten_wellFormed order cbuf (by omega)
        ((rewritten_aligned_iff order cbuf messages).mp aligned)) (Nat.le_refl _) rest
      rw [length] at laidOut
      rw [cmsgMessages_laidOut laidOut] at walked
      cases walked
      exact ⟨(rewrittenFrom_preserved_iff order cbuf messages 0).mp preserved, aligned⟩
    · exfalso
      rw [cmsgMessages, Option.map_eq_some_iff] at walked
      obtain ⟨headers, walked, rfl⟩ := walked
      have lengths : headers.length = (rewrittenFrom order cbuf 0 messages).length := by
        have same := congrArg List.length (rewrittenFrom_lengths order cbuf 0 messages)
        rw [List.length_map, List.length_map] at same
        rw [same, preserved.length_eq, List.length_map]
      obtain ⟨header, member, level⟩ := cmsgWalk_misaligned
        (rewrittenFrom order cbuf 0 messages) [] rest _ _ headers
        (by rw [List.nil_append, List.length_nil, Nat.zero_add, length])
        (rewritten_socket order cbuf (by omega) socket) aligned walked lengths
      obtain ⟨old, original, kept⟩ := preserved_of_mem preserved (List.mem_map_of_mem member)
      have same := congrArg UInt32.toNat kept.level
      rw [socket old original, readMessage_level] at same
      exact level same
  · rintro ⟨known, aligned⟩
    have laidOut := LaidOut.append (rewritten_wellFormed order cbuf (by omega)
      ((rewritten_aligned_iff order cbuf messages).mp aligned)) (Nat.le_refl _) rest
    rw [length] at laidOut
    exact ⟨_, cmsgMessages_laidOut laidOut,
      (rewrittenFrom_preserved_iff order cbuf messages 0).mpr known⟩

def shortMessages : List Message :=
  [⟨0xffff, 2, [1, 0, 0, 0, 2, 0, 0, 0]⟩, ⟨0xffff, 2, [1, 0, 0, 0, 0, 0, 0, 0, 2, 0, 0, 0]⟩,
    ⟨0xffff, 1, [7, 8, 9]⟩]

def roomyMessage : Msghdr := ⟨some (List.replicate 96 0), 96⟩

def shortReply : Reply roomyMessage.initControllen where
  ret := 0
  stream := concat .little shortMessages
  fits := by decide

theorem shortReply_wellFormed : WellFormed .little shortReply.stream shortMessages :=
  wellFormed_concat .little shortMessages (by decide) (by decide)

end LegacySupport.Packet
