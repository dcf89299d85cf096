import LegacySupport.Packet

/-!
The byte swaps of timestamps in control messages, in the build for translated processes. The walk
reads its strides from the buffer that it changes.
-/

namespace LegacySupport.Packet

open CInt Bytes

/-! ## The code -/

def secWidth (abi : Abi) : Nat := abi.bits / 8

def usecWidth : Nat := 4

def timevalSize (abi : Abi) : Nat := secWidth abi + secWidth abi

def osSwapInt (width value : Nat) : Nat := decode .big (encode .little width value)

/-- An operand of another size is left alone. -/
def byteSwapInplace (order : ByteOrder) (memory : List UInt8) (loc width : Nat) : List UInt8 :=
  if width = 2 ∨ width = 4 ∨ width = 8 then
    store memory loc
      (encode order width (osSwapInt width (decode order (slice memory loc width))))
  else memory

/-- One round of `fix_cmsg_endianness`. The length of the data is compared as a `size_t`. -/
def endiannessStep (order : ByteOrder) (abi : Abi) (memory : List UInt8) (cmsg : Nat) :
    List UInt8 :=
  let header := readCmsghdr order memory cmsg
  if header.cmsgLevel = solSocket then
    if header.cmsgType = scmTimestamp then
      if abi.sizeT (cmsgDatalen header) ≠ timevalSize abi then memory
      else
        let tvp := cmsgData cmsg
        let memory := byteSwapInplace order memory tvp (secWidth abi)
        byteSwapInplace order memory (tvp + secWidth abi) usecWidth
    else memory
  else memory

def endiannessLoop (order : ByteOrder) (abi : Abi) :
    Nat → Msghdr → Option Nat → Option (Msghdr × List Nat)
  | _, msg, none => some (msg, [])
  | 0, _, some _ => none
  | fuel + 1, msg, some cmsg =>
      let msg := { msg with
        msgControl := msg.msgControl.map fun memory => endiannessStep order abi memory cmsg }
      (endiannessLoop order abi fuel msg (cmsgNxthdr order msg cmsg)).map fun (fixed, visited) =>
        (fixed, cmsg :: visited)

def fixCmsgEndianness (order : ByteOrder) (abi : Abi) (msg : Msghdr) :
    Option (Msghdr × List Nat) :=
  endiannessLoop order abi (msg.msgControllen + 1) msg (cmsgFirsthdr msg)

/-! ## What is swapped -/

def Message.IsTimeval (abi : Abi) (message : Message) : Prop :=
  message.IsTimestamp ∧ message.payload.length = timevalSize abi

instance (abi : Abi) (message : Message) : Decidable (message.IsTimeval abi) :=
  inferInstanceAs (Decidable (_ ∧ _))

def Message.swapped (abi : Abi) (message : Message) : Message :=
  if message.IsTimeval abi then
    { message with
      payload := (slice message.payload 0 (secWidth abi)).reverse ++
        (slice message.payload (secWidth abi) usecWidth).reverse ++
        message.payload.drop (secWidth abi + usecWidth) }
  else message

def timevalMirror (abi : Abi) (cmsg i : Nat) : Nat :=
  mirror (cmsgData cmsg) (secWidth abi) (mirror (cmsgData cmsg + secWidth abi) usecWidth i)

def InTimeval (abi : Abi) (cmsg i : Nat) : Prop :=
  cmsgData cmsg ≤ i ∧ i < cmsgData cmsg + secWidth abi + usecWidth

instance (abi : Abi) (cmsg i : Nat) : Decidable (InTimeval abi cmsg i) :=
  inferInstanceAs (Decidable (_ ∧ _))

/-- Where the bytes of a stream come from: the members of each `timeval` are turned round on the
spot, everything else stays. -/
def swappedFrom (abi : Abi) : Nat → List Message → Nat → Nat
  | _, [], i => i
  | base, message :: messages, i =>
      if message.IsTimeval abi ∧ InTimeval abi base i then timevalMirror abi base i
      else swappedFrom abi (base + align32 message.length) messages i

theorem secWidth_cases (abi : Abi) : secWidth abi = 4 ∨ secWidth abi = 8 := by
  cases abi
  · exact Or.inl rfl
  · exact Or.inr rfl

theorem timevalMirror_outside {abi : Abi} {cmsg i : Nat} (outside : ¬ InTimeval abi cmsg i) :
    timevalMirror abi cmsg i = i := by
  rw [InTimeval] at outside
  have usec : mirror (cmsgData cmsg + secWidth abi) usecWidth i = i := mirror_outside (by omega)
  rw [timevalMirror, usec, mirror_outside (by omega)]

theorem timevalMirror_sec {abi : Abi} {cmsg i : Nat}
    (sec : cmsgData cmsg ≤ i ∧ i < cmsgData cmsg + secWidth abi) :
    timevalMirror abi cmsg i = mirror (cmsgData cmsg) (secWidth abi) i := by
  have usec : mirror (cmsgData cmsg + secWidth abi) usecWidth i = i := mirror_outside (by omega)
  rw [timevalMirror, usec]

theorem timevalMirror_usec {abi : Abi} {cmsg i : Nat}
    (usec : cmsgData cmsg + secWidth abi ≤ i ∧ i < cmsgData cmsg + secWidth abi + usecWidth) :
    timevalMirror abi cmsg i = mirror (cmsgData cmsg + secWidth abi) usecWidth i := by
  have within := mirror_inside usec
  rw [timevalMirror, mirror_outside (by omega)]

theorem inTimeval_cases {abi : Abi} {cmsg i : Nat} (inside : InTimeval abi cmsg i) :
    (cmsgData cmsg ≤ i ∧ i < cmsgData cmsg + secWidth abi) ∨
      (cmsgData cmsg + secWidth abi ≤ i ∧ i < cmsgData cmsg + secWidth abi + usecWidth) := by
  rw [InTimeval] at inside
  omega

theorem timevalMirror_inside {abi : Abi} {cmsg i : Nat} (inside : InTimeval abi cmsg i) :
    InTimeval abi cmsg (timevalMirror abi cmsg i) := by
  rcases inTimeval_cases inside with sec | usec
  · have within := mirror_inside sec
    rw [timevalMirror_sec sec, InTimeval]
    omega
  · have within := mirror_inside usec
    rw [timevalMirror_usec usec, InTimeval]
    omega

theorem timevalMirror_twice {abi : Abi} {cmsg i : Nat} (inside : InTimeval abi cmsg i) :
    timevalMirror abi cmsg (timevalMirror abi cmsg i) = i := by
  rcases inTimeval_cases inside with sec | usec
  · rw [timevalMirror_sec sec, timevalMirror_sec (mirror_inside sec), mirror_mirror]
  · rw [timevalMirror_usec usec, timevalMirror_usec (mirror_inside usec), mirror_mirror]

theorem swappedFrom_cases (abi : Abi) (messages : List Message) : ∀ base i,
    swappedFrom abi base messages i = i ∨
      cmsgData base ≤ i ∧ cmsgData base ≤ swappedFrom abi base messages i := by
  induction messages with
  | nil =>
      intro base i
      exact Or.inl rfl
  | cons message messages ih =>
      intro base i
      rw [swappedFrom]
      split
      next timeval =>
        exact Or.inr ⟨timeval.2.1, (timevalMirror_inside timeval.2).1⟩
      next =>
        rcases ih (base + align32 message.length) i with same | ⟨behind, above⟩
        · exact Or.inl same
        · have next : cmsgData base ≤ cmsgData (base + align32 message.length) := by
            simp only [cmsgData]
            omega
          exact Or.inr ⟨by omega, by omega⟩

theorem swappedFrom_before (abi : Abi) (messages : List Message) {base i : Nat} (before : i < base) :
    swappedFrom abi base messages i = i := by
  have data : cmsgData base = base + 12 := rfl
  rcases swappedFrom_cases abi messages base i with same | ⟨behind, -⟩
  · exact same
  · omega

theorem timeval_within {abi : Abi} {message : Message} (timeval : message.IsTimeval abi)
    {base i : Nat} (inside : InTimeval abi base i) : i < base + message.length := by
  have size := timeval.2
  have length : message.length = 12 + message.payload.length := rfl
  have data : cmsgData base = base + 12 := rfl
  have usec : usecWidth = 4 := rfl
  rw [timevalSize] at size
  rw [InTimeval, data, usec] at inside
  have width := secWidth_cases abi
  omega

theorem swappedFrom_inTimeval {abi : Abi} {message : Message} (timeval : message.IsTimeval abi)
    (messages : List Message) {base i : Nat}
    (inside : InTimeval abi base i ∨
      InTimeval abi base (swappedFrom abi (base + align32 message.length) messages i)) :
    swappedFrom abi (base + align32 message.length) messages i = i := by
  rcases swappedFrom_cases abi messages (base + align32 message.length) i with
    same | ⟨behind, above⟩
  · exact same
  · have padded := le_align32 message.length
    have data : cmsgData (base + align32 message.length) =
      base + align32 message.length + 12 := rfl
    rcases inside with inside | inside
    · have below := timeval_within timeval inside
      omega
    · have below := timeval_within timeval inside
      omega

theorem swappedFrom_twice (abi : Abi) (messages : List Message) : ∀ base i,
    swappedFrom abi base messages (swappedFrom abi base messages i) = i := by
  induction messages with
  | nil =>
      intro base i
      rfl
  | cons message messages ih =>
      intro base i
      by_cases here : message.IsTimeval abi ∧ InTimeval abi base i
      · have again := timevalMirror_inside here.2
        rw [swappedFrom, swappedFrom, if_pos here, if_pos ⟨here.1, again⟩,
          timevalMirror_twice here.2]
      · have elsewhere : ¬ (message.IsTimeval abi ∧
            InTimeval abi base (swappedFrom abi (base + align32 message.length) messages i)) := by
          rintro ⟨timeval, inside⟩
          rw [swappedFrom_inTimeval timeval messages (Or.inr inside)] at inside
          exact here ⟨timeval, inside⟩
        rw [swappedFrom, swappedFrom, if_neg here, if_neg elsewhere, ih]

/-! ## One message -/

theorem encode_osSwapInt (order : ByteOrder) {width : Nat} (bytes : List UInt8)
    (length : bytes.length = width) :
    encode order width (osSwapInt width (decode order bytes)) = bytes.reverse := by
  subst length
  cases order with
  | little =>
      have reversed : (bytes.reverse).length = bytes.length := List.length_reverse
      simp only [osSwapInt, encode, decode, encodeLittle_decodeLittle]
      rw [← reversed, encodeLittle_decodeLittle]
  | big =>
      have reversed := encodeLittle_decodeLittle bytes.reverse
      rw [List.length_reverse] at reversed
      simp only [osSwapInt, encode, decode, reversed, List.reverse_reverse,
        encodeLittle_decodeLittle]

theorem byteSwapInplace_eq (order : ByteOrder) {memory : List UInt8} {loc width : Nat}
    (operand : width = 4 ∨ width = 8) (inside : loc + width ≤ memory.length) :
    byteSwapInplace order memory loc width = store memory loc (slice memory loc width).reverse := by
  rw [byteSwapInplace, if_pos (Or.inr operand),
    encode_osSwapInt order _ (length_slice inside)]

theorem cmsgDatalen_timeval (abi : Abi) (message : Message) (fits : message.length < 2 ^ 32) :
    abi.sizeT (cmsgDatalen message.header) = timevalSize abi ↔
      message.payload.length = timevalSize abi := by
  have length : message.length = 12 + message.payload.length := rfl
  have start : align32 sizeofCmsghdr = 12 := rfl
  simp only [cmsgDatalen, Message.header, start]
  cases abi with
  | ilp32 =>
      have size : timevalSize .ilp32 = 8 := rfl
      rw [sizeT_ilp32, size]
      omega
  | lp64 =>
      have size : timevalSize .lp64 = 16 := rfl
      rw [sizeT_lp64, size]
      omega

theorem endiannessStep_other {order : ByteOrder} {abi : Abi} {memory : List UInt8} {base : Nat}
    {message : Message} (fits : message.length < 2 ^ 32)
    (placed : slice memory base message.length = message.bytes order)
    (other : ¬ message.IsTimeval abi) : endiannessStep order abi memory base = memory := by
  have datalen := cmsgDatalen_timeval abi message fits
  rw [Message.IsTimeval, Message.IsTimestamp, ← datalen] at other
  simp only [endiannessStep, readCmsghdr_message fits placed]
  rw [Message.header] at other ⊢
  dsimp only at other ⊢
  split_ifs with socket stamp size
  · rfl
  · exact absurd ⟨⟨socket, stamp⟩, not_not.mp size⟩ other
  · rfl
  · rfl

theorem placed_inside {order : ByteOrder} {memory : List UInt8} {base : Nat} {message : Message}
    (placed : slice memory base message.length = message.bytes order) :
    base + message.length ≤ memory.length := by
  have copied : (slice memory base message.length).length = message.length := by
    rw [placed, Message.length_bytes]
  have long : 12 ≤ message.length := message.length_ge
  simp only [slice, List.length_take, List.length_drop] at copied
  omega

theorem endiannessStep_timeval {order : ByteOrder} {abi : Abi} {memory : List UInt8} {base : Nat}
    {message : Message} (fits : message.length < 2 ^ 32)
    (placed : slice memory base message.length = message.bytes order)
    (timeval : message.IsTimeval abi) (i : Nat) :
    (endiannessStep order abi memory base)[i]? = memory[timevalMirror abi base i]? := by
  have datalen := (cmsgDatalen_timeval abi message fits).mpr timeval.2
  obtain ⟨⟨socket, stamp⟩, size⟩ := timeval
  have room := placed_inside placed
  have length : message.length = 12 + message.payload.length := rfl
  have data : cmsgData base = base + 12 := rfl
  have width := secWidth_cases abi
  have usec : usecWidth = 4 := rfl
  rw [timevalSize] at size
  have sec : cmsgData base + secWidth abi ≤ memory.length := by omega
  have sec_length : (slice memory (cmsgData base) (secWidth abi)).reverse.length = secWidth abi := by
    rw [List.length_reverse, length_slice sec]
  simp only [endiannessStep, readCmsghdr_message fits placed, datalen]
  simp only [Message.header, socket, stamp, if_true, ne_eq, not_true_eq_false, if_false]
  rw [byteSwapInplace_eq order width sec]
  have stored := @length_store memory (slice memory (cmsgData base) (secWidth abi)).reverse
    (cmsgData base) (by omega)
  rw [byteSwapInplace_eq order (Or.inl usec) (by omega), getElem?_store_reverse (by omega),
    getElem?_store_reverse sec]
  rfl

/-! ## The walk -/

theorem readCmsghdr_congr (order : ByteOrder) {memory other : List UInt8} {cmsg : Nat}
    (same : ∀ i, cmsg ≤ i → i < cmsg + sizeofCmsghdr → other[i]? = memory[i]?) :
    readCmsghdr order other cmsg = readCmsghdr order memory cmsg := by
  have size : sizeofCmsghdr = 12 := rfl
  simp only [readCmsghdr]
  rw [slice_congr fun i behind _ => same i behind (by omega),
    slice_congr fun i behind _ => same i (by omega) (by omega),
    slice_congr fun i behind _ => same i (by omega) (by omega)]

theorem LaidOut.congr {order : ByteOrder} {memory other : List UInt8} {controllen : Nat}
    {messages : List Message} : ∀ {base : Nat}, LaidOut order memory controllen base messages →
      (∀ i, base ≤ i → other[i]? = memory[i]?) → LaidOut order other controllen base messages := by
  induction messages with
  | nil =>
      intro base laidOut _
      exact laidOut
  | cons message messages ih =>
      intro base laidOut same
      obtain ⟨inside, fits, placed, rest⟩ := laidOut
      refine ⟨inside, fits, ?_, ih rest fun i behind => same i (by omega)⟩
      rw [← placed]
      exact slice_congr fun i behind _ => same i behind

theorem endiannessStep_spec {order : ByteOrder} (abi : Abi) {memory : List UInt8} {base : Nat}
    {message : Message} (fits : message.length < 2 ^ 32)
    (placed : slice memory base message.length = message.bytes order) (i : Nat) :
    (endiannessStep order abi memory base)[i]? =
      memory[if message.IsTimeval abi ∧ InTimeval abi base i then timevalMirror abi base i else i]? := by
  by_cases timeval : message.IsTimeval abi
  · rw [endiannessStep_timeval fits placed timeval]
    by_cases inside : InTimeval abi base i
    · rw [if_pos ⟨timeval, inside⟩]
    · rw [timevalMirror_outside inside, if_neg fun both => inside both.2]
  · rw [endiannessStep_other fits placed timeval, if_neg fun both => timeval both.1]

structure Rearranged (before after : Msghdr) (source : Nat → Nat) : Prop where
  controllen : after.msgControllen = before.msgControllen
  present : after.msgControl.isSome = before.msgControl.isSome
  memory : ∀ i, after.memory[i]? = before.memory[source i]?

theorem endiannessLoop_laidOut {order : ByteOrder} (abi : Abi) {messages : List Message} :
    ∀ {msg : Msghdr} {base fuel : Nat},
      LaidOut order msg.memory msg.msgControllen base messages →
      msg.msgControllen < base + fuel →
      ∃ fixed, endiannessLoop order abi fuel msg (headerAt msg base) =
          some (fixed, offsets base messages) ∧
        Rearranged msg fixed (swappedFrom abi base messages) := by
  induction messages with
  | nil =>
      intro msg base fuel laidOut _
      have none_left : headerAt msg base = none := if_pos laidOut
      refine ⟨msg, ?_, rfl, rfl, fun i => rfl⟩
      rw [none_left, endiannessLoop.eq_1]
      rfl
  | cons message messages ih =>
      intro msg base fuel laidOut enough
      obtain ⟨inside, fits, placed, rest⟩ := laidOut
      have long : 12 ≤ message.length := message.length_ge
      have here : headerAt msg base = some base := if_neg (show ¬ _ < base + 12 by omega)
      have padded := le_align32 message.length
      have step := endiannessStep_spec abi fits placed
      have room := placed_inside placed
      obtain ⟨memory, control⟩ : ∃ memory, msg.msgControl = some memory := by
        cases control : msg.msgControl with
        | none =>
            have empty : msg.memory.length = 0 := by rw [Msghdr.memory, control]; rfl
            omega
        | some memory => exact ⟨memory, rfl⟩
      cases fuel with
      | zero => omega
      | succ fuel =>
          let next : Msghdr := { msg with
            msgControl := msg.msgControl.map fun memory => endiannessStep order abi memory base }
          have stored : next.memory = endiannessStep order abi msg.memory base := by
            simp only [next, Msghdr.memory, control, Option.map_some, Option.getD_some]
          have before : ∀ i, i < cmsgData base → next.memory[i]? = msg.memory[i]? := by
            intro i outside
            rw [stored, step, if_neg]
            rintro ⟨-, inside⟩
            exact absurd inside.1 (by omega)
          have behind : ∀ i, base + align32 message.length ≤ i →
              next.memory[i]? = msg.memory[i]? := by
            intro i outside
            rw [stored, step, if_neg]
            rintro ⟨timeval, inside⟩
            exact absurd (timeval_within timeval inside) (by omega)
          have header : readCmsghdr order next.memory base = message.header := by
            rw [← readCmsghdr_message fits placed]
            exact readCmsghdr_congr order fun i _ within => before i within
          obtain ⟨fixed, walked, controllen, present, moved⟩ :=
            @ih next _ fuel (rest.congr behind) (show msg.msgControllen < _ + fuel by omega)
          refine ⟨fixed, ?_, controllen, ?_, fun i => ?_⟩
          · rw [here, endiannessLoop]
            change (endiannessLoop order abi fuel next (cmsgNxthdr order next base)).map _ = _
            rw [cmsgNxthdr, header]
            simp only [Message.header]
            rw [walked]
            rfl
          · rw [present]
            simp only [next, Option.isSome_map]
          · rw [moved, stored, step, swappedFrom]
            by_cases timeval : message.IsTimeval abi ∧ InTimeval abi base i
            · have still := swappedFrom_inTimeval timeval.1 messages (Or.inl timeval.2)
              rw [still, if_pos timeval]
            · rw [if_neg timeval, if_neg]
              rintro ⟨stamp, inside⟩
              have still := swappedFrom_inTimeval stamp messages (Or.inr inside)
              rw [still] at inside
              exact timeval ⟨stamp, inside⟩

/-! ## The result -/

theorem length_swapped (abi : Abi) (message : Message) :
    (message.swapped abi).length = message.length := by
  unfold Message.swapped
  split
  next timeval =>
    have size := timeval.2
    have width := secWidth_cases abi
    have usec : usecWidth = 4 := rfl
    rw [timevalSize] at size
    simp only [Message.length, List.length_append, List.length_reverse, List.length_drop, slice,
      List.length_take]
    omega
  next => rfl

theorem swapped_isTimeval (abi : Abi) (message : Message) :
    (message.swapped abi).IsTimeval abi ↔ message.IsTimeval abi := by
  have length := length_swapped abi message
  simp only [Message.length] at length
  have payload : (message.swapped abi).payload.length = message.payload.length := by omega
  have stamp : (message.swapped abi).IsTimestamp ↔ message.IsTimestamp := by
    unfold Message.swapped
    split <;> rfl
  rw [Message.IsTimeval, Message.IsTimeval, payload, stamp]

theorem offsets_swapped (abi : Abi) (messages : List Message) : ∀ base,
    offsets base (messages.map (Message.swapped abi)) = offsets base messages := by
  induction messages with
  | nil =>
      intro base
      rfl
  | cons message messages ih =>
      intro base
      rw [List.map_cons, offsets, offsets, length_swapped, ih]

theorem swappedFrom_swapped (abi : Abi) (messages : List Message) : ∀ base,
    swappedFrom abi base (messages.map (Message.swapped abi)) = swappedFrom abi base messages := by
  induction messages with
  | nil =>
      intro base
      rfl
  | cons message messages ih =>
      intro base
      funext i
      rw [List.map_cons, swappedFrom, swappedFrom, length_swapped, ih]
      simp only [swapped_isTimeval]

theorem header_swapped (abi : Abi) (message : Message) :
    (message.swapped abi).header = message.header := by
  have level : (message.swapped abi).level = message.level := by
    unfold Message.swapped
    split <;> rfl
  have type : (message.swapped abi).type = message.type := by
    unfold Message.swapped
    split <;> rfl
  rw [Message.header, length_swapped, level, type]
  rfl

theorem header_message {order : ByteOrder} {memory : List UInt8} {base : Nat} {message : Message}
    (placed : slice memory base message.length = message.bytes order) :
    slice memory base 12 = message.header.bytes order := by
  have long : 0 + 12 ≤ message.length := by
    rw [Nat.zero_add]
    exact message.length_ge
  have first := @slice_slice memory base message.length 0 12 long
  have twelve : (message.header.bytes order).length = 12 := Cmsghdr.length_bytes order _
  have start := slice_append (message.header.bytes order) [] message.payload
  have whole := slice_zero_length (message.header.bytes order)
  rw [twelve] at whole
  rw [Nat.add_zero] at first
  rw [← first, placed, Message.bytes, slice_append_left _ _ (by omega), whole]

theorem swapped_bytes {order : ByteOrder} (abi : Abi) {memory other : List UInt8} {base : Nat}
    {message : Message} (fits : message.length < 2 ^ 32)
    (placed : slice memory base message.length = message.bytes order)
    (moved : ∀ i, base ≤ i → i < base + message.length → other[i]? =
      memory[if message.IsTimeval abi ∧ InTimeval abi base i then timevalMirror abi base i
        else i]?) :
    slice other base message.length = (message.swapped abi).bytes order := by
  by_cases timeval : message.IsTimeval abi
  · have room := placed_inside placed
    have payload := payload_message placed
    have size := timeval.2
    have width := secWidth_cases abi
    have length : message.length = 12 + message.payload.length := rfl
    have data : cmsgData base = base + 12 := rfl
    have usec : usecWidth = 4 := rfl
    rw [timevalSize] at size
    have unmoved : ∀ i, base ≤ i → i < base + message.length → ¬ InTimeval abi base i →
        other[i]? = memory[i]? := by
      intro i behind within outside
      rw [moved i behind within, if_neg fun both => outside both.2]
    have within : ∀ start count, start + count ≤ message.payload.length →
        slice memory (base + 12 + start) count = slice message.payload start count := by
      intro start count inside
      rw [← data, ← slice_slice memory inside, payload]
    have header : slice other base 12 = message.header.bytes order := by
      rw [← header_message placed]
      refine slice_congr fun i behind inside => unmoved i behind (by omega) ?_
      rw [InTimeval]
      omega
    have sec : slice other (base + 12) (secWidth abi) =
        (slice message.payload 0 (secWidth abi)).reverse := by
      rw [← within 0 (secWidth abi) (by omega)]
      refine slice_mirror (by omega) fun i lower upper => ?_
      have field : cmsgData base ≤ i ∧ i < cmsgData base + secWidth abi := by omega
      have inside : InTimeval abi base i := ⟨field.1, by omega⟩
      rw [moved i (by omega) (by omega), if_pos ⟨timeval, inside⟩, timevalMirror_sec field]
      rfl
    have usecs : slice other (base + 12 + secWidth abi) usecWidth =
        (slice message.payload (secWidth abi) usecWidth).reverse := by
      rw [← within (secWidth abi) usecWidth (by omega)]
      refine slice_mirror (by omega) fun i lower upper => ?_
      have field : cmsgData base + secWidth abi ≤ i ∧
          i < cmsgData base + secWidth abi + usecWidth := by omega
      have inside : InTimeval abi base i := ⟨by omega, field.2⟩
      rw [moved i (by omega) (by omega), if_pos ⟨timeval, inside⟩, timevalMirror_usec field]
      rfl
    have rest : slice other (base + 12 + secWidth abi + usecWidth) (secWidth abi - usecWidth) =
        message.payload.drop (secWidth abi + usecWidth) := by
      have same : slice other (base + 12 + secWidth abi + usecWidth) (secWidth abi - usecWidth) =
          slice memory (base + 12 + secWidth abi + usecWidth) (secWidth abi - usecWidth) := by
        refine slice_congr fun i lower upper => unmoved i (by omega) (by omega) ?_
        rw [InTimeval]
        omega
      rw [same, Nat.add_assoc, within (secWidth abi + usecWidth) _ (by omega), slice,
        List.take_of_length_le]
      rw [List.length_drop]
      omega
    have parts : message.length =
        12 + (secWidth abi + (usecWidth + (secWidth abi - usecWidth))) := by omega
    have turned : (message.swapped abi).payload =
        (slice message.payload 0 (secWidth abi)).reverse ++
          (slice message.payload (secWidth abi) usecWidth).reverse ++
          message.payload.drop (secWidth abi + usecWidth) := by
      rw [Message.swapped, if_pos timeval]
    rw [parts, slice_add, slice_add, slice_add, header, sec, usecs, rest, Message.bytes,
      header_swapped, turned, List.append_assoc]
  · have same : slice other base message.length = slice memory base message.length :=
      slice_congr fun i behind inside => by
        rw [moved i behind inside, if_neg fun both => timeval both.1]
    rw [same, placed, Message.swapped, if_neg timeval]

theorem LaidOut.swapped {order : ByteOrder} (abi : Abi) {memory other : List UInt8}
    {controllen : Nat} {messages : List Message} :
    ∀ {base : Nat}, LaidOut order memory controllen base messages →
      (∀ i, base ≤ i → other[i]? = memory[swappedFrom abi base messages i]?) →
      LaidOut order other controllen base (messages.map (Message.swapped abi)) := by
  induction messages with
  | nil =>
      intro base laidOut _
      exact laidOut
  | cons message messages ih =>
      intro base laidOut moved
      obtain ⟨inside, fits, placed, rest⟩ := laidOut
      have padded := le_align32 message.length
      rw [List.map_cons, LaidOut, length_swapped]
      refine ⟨inside, fits, ?_, ih rest ?_⟩
      · refine swapped_bytes abi fits placed fun i behind within => ?_
        rw [moved i behind, swappedFrom, swappedFrom_before abi messages (by omega)]
      · intro i behind
        rw [moved i (by omega), swappedFrom, if_neg]
        rintro ⟨timeval, within⟩
        exact absurd (timeval_within timeval within) (by omega)

theorem offsets_pairwise (messages : List Message) : ∀ base,
    (∀ offset ∈ offsets base messages, base ≤ offset) ∧
      (offsets base messages).Pairwise (· < ·) := by
  induction messages with
  | nil =>
      intro base
      exact ⟨List.forall_mem_nil _, List.Pairwise.nil⟩
  | cons message messages ih =>
      intro base
      obtain ⟨above, sorted⟩ := ih (base + align32 message.length)
      have long : 12 ≤ message.length := message.length_ge
      have padded := le_align32 message.length
      constructor
      · intro offset member
        rcases List.mem_cons.mp member with rfl | later
        · exact Nat.le_refl _
        · have behind := above offset later
          omega
      · refine List.Pairwise.cons (fun offset later => ?_) sorted
        have behind := above offset later
        omega

theorem fixCmsgEndianness_laidOut {order : ByteOrder} (abi : Abi) {msg : Msghdr}
    {messages : List Message} (laidOut : LaidOut order msg.memory msg.msgControllen 0 messages) :
    ∃ fixed, fixCmsgEndianness order abi msg = some (fixed, offsets 0 messages) ∧
      Rearranged msg fixed (swappedFrom abi 0 messages) ∧
      LaidOut order fixed.memory fixed.msgControllen 0 (messages.map (Message.swapped abi)) := by
  obtain ⟨fixed, walked, rearranged⟩ := endiannessLoop_laidOut abi laidOut
    (show msg.msgControllen < 0 + (msg.msgControllen + 1) by omega)
  refine ⟨fixed, walked, rearranged, ?_⟩
  rw [rearranged.controllen]
  exact laidOut.swapped abi fun i _ => rearranged.memory i

theorem rearranged_same {before after : Msghdr} (rearranged : Rearranged before after id) :
    after = before := by
  obtain ⟨controllen, present, memory⟩ := rearranged
  have same : after.memory = before.memory := List.ext_getElem? memory
  have control : after.msgControl = before.msgControl := by
    rw [Msghdr.memory, Msghdr.memory] at same
    cases first : before.msgControl with
    | none => rwa [first, Option.isSome_none, Option.isSome_eq_false_iff, Option.isNone_iff_eq_none]
        at present
    | some memory =>
        rw [first, Option.isSome_some] at present
        obtain ⟨other, second⟩ := Option.isSome_iff_exists.mp present
        rw [first, second] at same
        rw [second]
        exact congrArg some same
  cases after
  cases before
  cases control
  cases controllen
  rfl

/-- The walk visits every message of a well-formed stream once and turns round both members of
each native timestamp, nothing else. Doing it again gives the stream back. -/
theorem fixCmsgEndianness_involutive {order : ByteOrder} (abi : Abi) {msg : Msghdr}
    {messages : List Message} (laidOut : LaidOut order msg.memory msg.msgControllen 0 messages) :
    ∃ fixed, fixCmsgEndianness order abi msg = some (fixed, offsets 0 messages) ∧
      (offsets 0 messages).Pairwise (· < ·) ∧
      Rearranged msg fixed (swappedFrom abi 0 messages) ∧
      LaidOut order fixed.memory fixed.msgControllen 0 (messages.map (Message.swapped abi)) ∧
      cmsgHeaders order msg = some (offsets 0 messages) ∧
      cmsgHeaders order fixed = some (offsets 0 messages) ∧
      fixCmsgEndianness order abi fixed = some (msg, offsets 0 messages) := by
  obtain ⟨fixed, walked, rearranged, swapped⟩ := fixCmsgEndianness_laidOut abi laidOut
  obtain ⟨again, walkedAgain, back, -⟩ := fixCmsgEndianness_laidOut abi swapped
  have headers := cmsgHeaders_laidOut swapped
  rw [offsets_swapped] at walkedAgain headers
  rw [swappedFrom_swapped] at back
  have same : again = msg := by
    refine rearranged_same ⟨?_, ?_, fun i => ?_⟩
    · rw [back.controllen, rearranged.controllen]
    · rw [back.present, rearranged.present]
    · rw [back.memory, rearranged.memory, swappedFrom_twice]
      rfl
  rw [same] at walkedAgain
  exact ⟨fixed, walked, (offsets_pairwise messages 0).2, rearranged, swapped,
    cmsgHeaders_laidOut laidOut, headers, walkedAgain⟩

def stampedStream : List Message :=
  [⟨0xffff, 2, [1, 2, 3, 4, 5, 6, 7, 8]⟩, ⟨0xffff, 1, [0, 0, 0, 3]⟩, ⟨0, 7, [9, 10]⟩,
    ⟨0xffff, 2, [11, 12, 13, 14, 15, 16, 17, 18]⟩]

def stampedMsg : Msghdr where
  msgControl := some (concat .big (stampedStream.take 3) ++ [0, 0] ++
    concat .big (stampedStream.drop 3))
  msgControllen := 72

theorem fixCmsgEndianness_involutive_stamped :
    ∃ fixed, fixCmsgEndianness .big .ilp32 stampedMsg = some (fixed, [0, 20, 36, 52]) ∧
      (offsets 0 stampedStream).Pairwise (· < ·) ∧
      Rearranged stampedMsg fixed (swappedFrom .ilp32 0 stampedStream) ∧
      LaidOut .big fixed.memory fixed.msgControllen 0
        [⟨0xffff, 2, [4, 3, 2, 1, 8, 7, 6, 5]⟩, ⟨0xffff, 1, [0, 0, 0, 3]⟩, ⟨0, 7, [9, 10]⟩,
          ⟨0xffff, 2, [14, 13, 12, 11, 18, 17, 16, 15]⟩] ∧
      cmsgHeaders .big stampedMsg = some [0, 20, 36, 52] ∧
      cmsgHeaders .big fixed = some [0, 20, 36, 52] ∧
      fixCmsgEndianness .big .ilp32 fixed = some (stampedMsg, [0, 20, 36, 52]) := by
  have laidOut : LaidOut .big stampedMsg.memory stampedMsg.msgControllen 0 stampedStream := by
    refine ⟨by decide, by decide, by decide, by decide, by decide, by decide, by decide, by decide,
      by decide, by decide, by decide, by decide, ?_⟩
    exact show (72 : Nat) < 72 + 12 by decide
  exact fixCmsgEndianness_involutive .ilp32 laidOut

end LegacySupport.Packet
