import LegacySupport.UnpackCore

/-!
Where `copyfile_unpack` stays inside its buffer. The checks of an entry keep the entry, its name
and its data inside; what remains is the walk that swaps the entries before they are checked, and
the text of an access control list.
-/

namespace LegacySupport.Copyfile

open Bytes CInt CheckedMemory

variable {Target Info Exit : Type} {size : Nat}

/-! ## The header in host byte order -/

def fieldsReversed (memory : Memory) : List (Nat × Nat) → Memory
  | [] => memory
  | (width, address) :: rest => fieldsReversed (reversed width memory address) rest

def attrEntryFields (entry : Nat) : List (Nat × Nat) := [(4, entry), (4, entry + 4), (2, entry + 8)]

def adhdrFields (adh : Nat) : List (Nat × Nat) :=
  [(4, adh), (4, adh + 4), (2, adh + 24), (4, adh + 26), (4, adh + 30), (4, adh + 34),
    (4, adh + 38), (4, adh + 42), (4, adh + 46)]

def attrhdrFields (ah : Nat) : List (Nat × Nat) :=
  [(4, ah + 84), (4, ah + 88), (4, ah + 92), (4, ah + 96), (4, ah + 100), (2, ah + 116),
    (2, ah + 118)]

def attrNext (memory : Memory) (entry : Nat) : Nat :=
  entry + attrEntryLength (memory (entry + 10)).toNat

def attrEntriesReversed : Nat → Nat → Memory → Memory
  | 0, _, memory => memory
  | count + 1, entry, memory =>
      attrEntriesReversed count (attrNext memory entry)
        (fieldsReversed memory (attrEntryFields entry))

def swapCount (ah : Nat) (memory : Memory) : Nat :=
  numberAt (if numberAt .little 4 memory (ah + 84) = attrHdrMagic then .little else .big) 2 memory
    (ah + 118)

def adhdrInHostOrder (host : Host size) (memory : Memory) : Memory :=
  match host.order with
  | .big => memory
  | .little => fieldsReversed memory (adhdrFields host.buffer)

def attrhdrInHostOrder (host : Host size) (memory : Memory) : Memory :=
  match host.order with
  | .big => memory
  | .little =>
      attrEntriesReversed (swapCount host.buffer memory) (host.buffer + 120)
        (fieldsReversed memory (attrhdrFields host.buffer))

/-! ## What the file has to be -/

/-- The entries that the swap goes through all start in the buffer, up to their name. -/
def EntriesInside (region : Region) (memory : Memory) : Nat → Nat → Prop
  | 0, _ => True
  | count + 1, entry =>
      entry + 11 ≤ region.finish ∧ EntriesInside region memory count (attrNext memory entry)

instance EntriesInside.decidable (region : Region) (memory : Memory) :
    ∀ count entry, Decidable (EntriesInside region memory count entry)
  | 0, _ => inferInstanceAs (Decidable True)
  | count + 1, entry =>
      have := EntriesInside.decidable region memory count (attrNext memory entry)
      inferInstanceAs (Decidable (_ ∧ _))

def entryOffset (host : Host size) (memory : Memory) (entry : Nat) : Nat :=
  numberAt host.order 4 memory entry

def entryLength (host : Host size) (memory : Memory) (entry : Nat) : Nat :=
  numberAt host.order 4 memory (entry + 4)

structure WellFormed (host : Host attrMaxHdrSize) (region : Region) (memory : Memory)
    (entry : Nat) : Prop where
  behind : region.start ≤ entry
  inside : entry + 12 ≤ region.finish
  named : 2 ≤ (memory (entry + 10)).toNat
  short : (memory (entry + 10)).toNat ≤ xattrMaxnamelen + 1
  nameInside : entry + 11 + (memory (entry + 10)).toNat ≤ region.finish
  nameEnds : memory (entry + 11 + (memory (entry + 10)).toNat - 1) = 0
  dataInside : entryOffset host memory entry + entryLength host memory entry ≤ region.size

/-- If the entry is taken for an access control list, its last byte is in the buffer, and so is
the end of its text. -/
def AclInside (host : Host attrMaxHdrSize) (flags : Flags) (region : Region) (memory : Memory)
    (entry : Nat) : Prop :=
  flags.acl = true →
    stringAt memory (entry + 11) (region.finish - (entry + 11)) = some xattrSecurityName →
      (entryLength host memory entry ≠ 0 ∨
        (host.abi = .ilp32 ∧ entryOffset host memory entry ≠ 0)) ∧
      Terminated region memory (region.start + entryOffset host memory entry)

/-- The lists among the entries that the extraction comes to, which ends at one that is not
well-formed. -/
def AclsInside (host : Host attrMaxHdrSize) (flags : Flags) (region : Region)
    (memory : Memory) : Nat → Nat → Prop
  | 0, _ => True
  | count + 1, entry =>
      WellFormed host region memory entry →
        AclInside host flags region memory entry ∧
          AclsInside host flags region memory count (attrNext memory entry)

structure AppleDouble (region : Region) (memory : Memory) : Prop where
  inside : 84 - 2 ≤ region.size
  magic : numberAt .big 4 memory region.start = adhMagic
  version : numberAt .big 4 memory (region.start + 4) = adhVersion
  numEntries : numberAt .big 2 memory (region.start + 24) = 2
  type : numberAt .big 4 memory (region.start + 26) = adFinderinfo

structure HasAttributes (host : Host attrMaxHdrSize) (region : Region) (memory : Memory) :
    Prop where
  header : AppleDouble region memory
  attributes : finderinfosize <
    numberAt host.order 4 (adhdrInHostOrder host memory) (region.start + 34)
  inside : 120 ≤ region.size

def AttributesInside (host : Host attrMaxHdrSize) (flags : Flags) (region : Region)
    (memory : Memory) : Prop :=
  (host.order = .little →
    EntriesInside region memory (swapCount host.buffer memory) (host.buffer + 120)) ∧
  (numberAt host.order 4 (attrhdrInHostOrder host memory) (host.buffer + 84) = attrHdrMagic →
    AclsInside host flags region (attrhdrInHostOrder host memory)
      (numberAt host.order 2 (attrhdrInHostOrder host memory) (host.buffer + 118))
      (host.buffer + 120))

def headerMemory (host : Host attrMaxHdrSize) (file : List UInt8) : Memory :=
  placed host.buffer (slice file 0 (hdrsize file))

def HeaderInside (host : Host attrMaxHdrSize) (flags : Flags) (file : List UInt8) : Prop :=
  HasAttributes host (headerRegion host file) (headerMemory host file) →
    AttributesInside host flags (headerRegion host file)
      (adhdrInHostOrder host (headerMemory host file))

/-! ## The swaps -/

theorem reverseFields_inside (Exit : Type) (region : Region) : ∀ fields memory,
    (∀ field ∈ fields, region.Holds field.2 field.1) →
      reverseFields region memory fields =
        (.next (fieldsReversed memory fields) : Outcome Exit Memory) := by
  intro fields
  induction fields with
  | nil =>
      intro memory inside
      rfl
  | cons field fields ih =>
      intro memory inside
      obtain ⟨width, address⟩ := field
      have first : region.Holds address width := inside (width, address) List.mem_cons_self
      rw [reverseFields, reverse_inside first, bind_next]
      exact ih _ fun other member => inside other (List.mem_cons_of_mem _ member)

theorem fieldsReversed_outside : ∀ fields memory address,
    (∀ field ∈ fields, address < field.2 ∨ field.2 + field.1 ≤ address) →
      fieldsReversed memory fields address = memory address := by
  intro fields
  induction fields with
  | nil => exact fun memory address outside => rfl
  | cons field fields ih =>
      intro memory address outside
      obtain ⟨width, first⟩ := field
      have beside : address < first ∨ first + width ≤ address :=
        outside (width, first) List.mem_cons_self
      rw [fieldsReversed, ih _ address fun other member =>
        outside other (List.mem_cons_of_mem _ member)]
      exact reversed_outside width first address memory beside

theorem numberAt_byte (order : ByteOrder) (memory : Memory) (address : Nat) :
    numberAt order 1 memory address = (memory address).toNat := by
  cases order with
  | little => simp [numberAt, bytesAt, decode, decodeLittle]
  | big => simp [numberAt, bytesAt, decode, decodeLittle]

theorem numberAt_lt (order : ByteOrder) (width : Nat) (memory : Memory) (address : Nat) :
    numberAt order width memory address < 256 ^ width := by
  have bound := decode_lt order (bytesAt memory address width)
  rwa [length_bytesAt memory width address] at bound

theorem attrEntryLength_bounds (byte : UInt8) :
    12 ≤ attrEntryLength byte.toNat ∧ 11 + byte.toNat ≤ attrEntryLength byte.toNat ∧
      attrEntryLength byte.toNat ≤ 268 := by
  have bound := byte.toNat_lt
  unfold attrEntryLength
  omega

structure Holds (host : Host size) (region : Region) : Prop where
  start : region.start = host.buffer
  fits : region.size ≤ size

section Region

variable {host : Host size} {region : Region}

theorem Holds.advance (holds : Holds host region) (pointer delta : Nat)
    (bound : pointer + delta ≤ region.finish + 4095) :
    host.advance pointer delta = pointer + delta := by
  have room := host.room
  have size := holds.fits
  have start := holds.start
  unfold Region.finish at bound
  rw [Host.advance, Nat.mod_eq_of_lt (by omega)]

theorem entriesInside_congr {memory other : Memory} : ∀ count entry,
    (∀ address, entry ≤ address → memory address = other address) →
      (EntriesInside region memory count entry ↔ EntriesInside region other count entry) := by
  intro count
  induction count with
  | zero => exact fun entry same => Iff.rfl
  | succ count ih =>
      intro entry same
      have next : attrNext memory entry = attrNext other entry := by
        rw [attrNext, attrNext, same (entry + 10) (by omega)]
      have bounds := attrEntryLength_bounds (other (entry + 10))
      rw [EntriesInside, EntriesInside, next]
      refine and_congr_right fun inside => ih _ fun address after => ?_
      unfold attrNext at after
      exact same address (by omega)

theorem swapAttrEntries_inside (Exit : Type) (holds : Holds host region) : ∀ count entry memory,
    region.start ≤ entry →
      (EntriesInside region memory count entry →
        swapAttrEntries host region count entry memory =
          (.next (attrEntriesReversed count entry memory) : Outcome Exit Memory)) ∧
      (¬ EntriesInside region memory count entry →
        (swapAttrEntries host region count entry memory : Outcome Exit Memory).Faults) := by
  intro count
  induction count with
  | zero =>
      intro entry memory behind
      exact ⟨fun inside => rfl, fun outside => absurd True.intro outside⟩
  | succ count ih =>
      intro entry memory behind
      by_cases first : entry + 11 ≤ region.finish
      · have bounds := attrEntryLength_bounds (memory (entry + 10))
        have namelen : region.Holds (entry + 10) 1 := ⟨by omega, by omega⟩
        have fields : ∀ field ∈ attrEntryFields entry, region.Holds field.2 field.1 := by
          intro field member
          simp only [attrEntryFields, List.mem_cons, List.not_mem_nil, or_false] at member
          rcases member with rfl | rfl | rfl
          · exact ⟨by omega, by omega⟩
          · exact ⟨by omega, by omega⟩
          · exact ⟨by omega, by omega⟩
        have below : ∀ field ∈ attrEntryFields entry, field.2 + field.1 ≤ entry + 10 := by
          intro field member
          simp only [attrEntryFields, List.mem_cons, List.not_mem_nil, or_false] at member
          rcases member with rfl | rfl | rfl
          · dsimp only
            omega
          · dsimp only
            omega
          · dsimp only
            omega
        have kept : ∀ address, attrNext memory entry ≤ address →
            memory address = fieldsReversed memory (attrEntryFields entry) address := by
          intro address after
          unfold attrNext at after
          exact (fieldsReversed_outside _ memory address fun field member =>
            Or.inr ((below field member).trans (by omega))).symm
        have next : host.advance entry (attrEntryLength (memory (entry + 10)).toNat) =
            attrNext memory entry := holds.advance _ _ (by omega)
        have step : swapAttrEntries host region (count + 1) entry memory =
            (swapAttrEntries host region count (attrNext memory entry)
              (fieldsReversed memory (attrEntryFields entry)) : Outcome Exit Memory) := by
          rw [swapAttrEntries, load_inside namelen, bind_next, numberAt_byte]
          simp only [next]
          exact congrArg (fun outcome => outcome >>= _)
            (reverseFields_inside Exit region (attrEntryFields entry) memory fields)
        have later : region.start ≤ attrNext memory entry := by
          unfold attrNext
          omega
        obtain ⟨inside, outside⟩ := ih (attrNext memory entry)
          (fieldsReversed memory (attrEntryFields entry)) later
        rw [step]
        rw [← entriesInside_congr count _ kept] at inside outside
        constructor
        · intro all
          exact inside all.2
        · intro some
          exact outside fun rest => some ⟨first, rest⟩
      · refine ⟨fun inside => absurd inside.1 first, fun outside => ?_⟩
        have namelen : ¬ region.Holds (entry + 10) 1 := fun holds => first holds.2
        rw [swapAttrEntries, load_outside namelen, bind_fault]
        exact faults_fault _

theorem adhMagic_oriented (memory : Memory) (address : Nat)
    (big : numberAt .big 4 memory address = adhMagic) :
    numberAt .little 4 memory address ≠ adhMagic := by
  have first := (memory address).toNat_lt
  have second := (memory (address + 1)).toNat_lt
  have third := (memory (address + 1 + 1)).toNat_lt
  have fourth := (memory (address + 1 + 1 + 1)).toNat_lt
  simp only [numberAt, bytesAt, decode, List.reverse_cons, List.reverse_nil, List.nil_append,
    List.cons_append, decodeLittle, adhMagic] at big ⊢
  omega

theorem swapAdhdr_inside (holds : Holds host region) (memory : Memory)
    (size : 84 - 2 ≤ region.size)
    (numEntries : numberAt
      (if numberAt .little 4 memory region.start = adhMagic then .little else .big) 2 memory
        (region.start + 24) = 2) :
    swapAdhdr host region memory =
      (.next (adhdrInHostOrder host memory) : Outcome Exit Memory) := by
  unfold swapAdhdr adhdrInHostOrder
  cases host.order with
  | big => rfl
  | little =>
      have inside : ∀ address width, region.start ≤ address →
          address + width ≤ region.start + 82 → region.Holds address width := by
        intro address width behind before
        refine ⟨behind, ?_⟩
        unfold Region.finish
        omega
      simp only [← holds.start]
      rw [load_inside (inside region.start 4 (by omega) (by omega)), bind_next,
        load_inside (inside (region.start + 24) 2 (by omega) (by omega)), bind_next, numEntries]
      have fields : ∀ field ∈ adhdrFields region.start, region.Holds field.2 field.1 := by
        intro field member
        simp only [adhdrFields, List.mem_cons, List.not_mem_nil, or_false] at member
        rcases member with rfl | rfl | rfl | rfl | rfl | rfl | rfl | rfl | rfl <;>
          exact inside _ _ (by dsimp only; omega) (by dsimp only; omega)
      have reversed := reverseFields_inside Exit region (adhdrFields region.start)
        memory fields
      simp only [adhdrFields, reverseFields, swapAdEntries, bind_bind, bind_next, Nat.add_assoc,
        Nat.reduceAdd] at reversed ⊢
      exact reversed

theorem swapAttrhdr_inside (Exit : Type) (holds : Holds host region) (memory : Memory)
    (size : 120 ≤ region.size) :
    ((host.order = .little →
        EntriesInside region memory (swapCount host.buffer memory) (host.buffer + 120)) →
      swapAttrhdr host region memory =
        (.next (attrhdrInHostOrder host memory) : Outcome Exit Memory)) ∧
    (¬ (host.order = .little →
        EntriesInside region memory (swapCount host.buffer memory) (host.buffer + 120)) →
      (swapAttrhdr host region memory : Outcome Exit Memory).Faults) := by
  unfold swapAttrhdr attrhdrInHostOrder
  cases host.order with
  | big => exact ⟨fun inside => rfl, fun outside => absurd (fun little => by cases little) outside⟩
  | little =>
      have inside : ∀ address width, host.buffer ≤ address →
          address + width ≤ host.buffer + 120 → region.Holds address width := by
        intro address width behind before
        rw [← holds.start] at behind before
        refine ⟨behind, ?_⟩
        unfold Region.finish
        omega
      have fields : ∀ field ∈ attrhdrFields host.buffer, region.Holds field.2 field.1 := by
        intro field member
        simp only [attrhdrFields, List.mem_cons, List.not_mem_nil, or_false] at member
        rcases member with rfl | rfl | rfl | rfl | rfl | rfl | rfl <;>
          exact inside _ _ (by dsimp only; omega) (by dsimp only; omega)
      have below : ∀ field ∈ attrhdrFields host.buffer, field.2 + field.1 ≤ host.buffer + 120 := by
        intro field member
        simp only [attrhdrFields, List.mem_cons, List.not_mem_nil, or_false] at member
        rcases member with rfl | rfl | rfl | rfl | rfl | rfl | rfl <;>
          (dsimp only; omega)
      have kept : ∀ address, host.buffer + 120 ≤ address →
          memory address = fieldsReversed memory (attrhdrFields host.buffer) address := by
        intro address after
        exact (fieldsReversed_outside _ memory address fun field member =>
          Or.inr ((below field member).trans after)).symm
      have reversed := reverseFields_inside Exit region (attrhdrFields host.buffer)
        memory fields
      have walk : (do
          let magic ← load region .little 4 memory (host.buffer + 84)
          let count ← load region (if magic = attrHdrMagic then .little else .big) 2 memory
            (host.buffer + 118)
          let memory ← reverseFields region memory (attrhdrFields host.buffer)
          swapAttrEntries host region count (host.buffer + 120) memory : Outcome Exit Memory) =
          swapAttrEntries host region (swapCount host.buffer memory) (host.buffer + 120)
            (fieldsReversed memory (attrhdrFields host.buffer)) := by
        rw [load_inside (inside _ 4 (by omega) (by omega)), bind_next,
          load_inside (inside _ 2 (by omega) (by omega)), bind_next, reversed, bind_next]
        rfl
      obtain ⟨good, bad⟩ := swapAttrEntries_inside Exit holds
        (swapCount host.buffer memory) (host.buffer + 120)
        (fieldsReversed memory (attrhdrFields host.buffer)) (by rw [holds.start]; omega)
      rw [← entriesInside_congr _ _ kept] at good bad
      constructor
      · intro entries
        exact walk.trans (good (entries rfl))
      · intro outside
        have faults := bad fun entries => outside fun little => entries
        rw [← walk] at faults
        exact faults

end Region

section Pointers

variable {host : Host attrMaxHdrSize} {region : Region}

theorem Holds.advance_outside (holds : Holds host region) (pointer delta : Nat)
    (behind : region.start ≤ pointer) (before : pointer ≤ region.finish)
    (small : pointer - region.start + delta < 2 ^ 32) :
    (region.finish < host.advance pointer delta ∨ host.advance pointer delta < region.start) ↔
      region.finish < pointer + delta := by
  have room := host.room
  have size := holds.fits
  have start := holds.start
  have allocated := host.allocated
  unfold attrMaxHdrSize at room size
  unfold Region.finish Host.advance at *
  revert room
  cases host.abi with
  | ilp32 =>
      rw [sizeMod_ilp32]
      omega
  | lp64 =>
      rw [sizeMod_lp64]
      omega

theorem Holds.data_rejected_iff (holds : Holds host region) (offset length : Nat)
    (offsetBound : offset < 2 ^ 32) (lengthBound : length < 2 ^ 32) :
    ((region.finish < host.advance region.start offset ∨
        host.advance region.start offset < region.start) ∨
      region.finish < host.advance (host.advance region.start offset) length ∨
        host.advance (host.advance region.start offset) length < region.start ∨
        region.size < length) ↔
      region.size < offset + length := by
  have finish : region.finish = region.start + region.size := rfl
  have size := holds.fits
  have dataptr := holds.advance_outside region.start offset (Nat.le_refl _)
    (Nat.le_add_right _ _) (by omega)
  unfold attrMaxHdrSize at size
  rw [dataptr]
  by_cases far : region.finish < region.start + offset
  · exact iff_of_true (Or.inl far) (by omega)
  · rw [holds.advance region.start offset (by omega)]
    by_cases large : region.size < length
    · exact iff_of_true (Or.inr (Or.inr (Or.inr large))) (by omega)
    · have dataend := holds.advance_outside (region.start + offset) length (by omega) (by omega)
        (by omega)
      omega

end Pointers

/-! ## The checks of an entry -/

section Extract

variable {run : Unpacking Target Info} {region : Region} {memory : Memory}

structure NameFormed (region : Region) (memory : Memory) (entry : Nat) : Prop where
  behind : region.start ≤ entry
  inside : entry + 12 ≤ region.finish
  named : 2 ≤ (memory (entry + 10)).toNat
  short : (memory (entry + 10)).toNat ≤ xattrMaxnamelen + 1
  nameInside : entry + 11 + (memory (entry + 10)).toNat ≤ region.finish
  nameEnds : memory (entry + 11 + (memory (entry + 10)).toNat - 1) = 0

variable (run region memory) in
def extractData (entry : Nat) (state : State Target) : Step Target (State Target) := do
  let name ← loadString region memory (entry + 11)
  let length ← load region run.host.order 4 memory (entry + 4)
  let offset ← load region run.host.order 4 memory entry
  let dataptr := run.host.advance region.start offset
  if region.finish < dataptr ∨ dataptr < region.start then .exit (-1, { state with err := einval })
  else if region.finish < run.host.advance dataptr length ∨
      run.host.advance dataptr length < region.start ∨ region.size < length then
    .exit (-1, { state with err := einval })
  else extractAttribute run region memory name dataptr length state

variable (run memory) in
theorem extractEntry_name (holds : Holds run.host region) (entry : Nat) (state : State Target) :
    (¬ NameFormed region memory entry ∧
      extractEntry run region memory entry state = .exit (-1, { state with err := einval })) ∨
    (NameFormed region memory entry ∧
      extractEntry run region memory entry state =
        extractData run region memory entry state) := by
  unfold extractEntry
  dsimp only
  by_cases place : region.finish ≤ entry ∨ entry < region.start
  · rw [if_pos place]
    refine Or.inl ⟨fun formed => ?_, rfl⟩
    have behind := formed.behind
    have inside := formed.inside
    omega
  rw [if_neg place, holds.advance entry 12 (by omega)]
  by_cases whole : region.finish < entry + 12
  · rw [if_pos whole]
    refine Or.inl ⟨fun formed => ?_, rfl⟩
    have inside := formed.inside
    omega
  have behind : region.start ≤ entry := by omega
  have held : ∀ address width, entry ≤ address → address + width ≤ region.finish →
      region.Holds address width := fun address width after before => ⟨by omega, before⟩
  rw [if_neg whole, load_inside (held (entry + 10) 1 (by omega) (by omega)), bind_next,
    numberAt_byte]
  by_cases named : (memory (entry + 10)).toNat < 2
  · rw [if_pos named]
    refine Or.inl ⟨fun formed => ?_, rfl⟩
    have two := formed.named
    omega
  rw [if_neg named]
  by_cases long : xattrMaxnamelen + 1 < (memory (entry + 10)).toNat
  · rw [if_pos long]
    refine Or.inl ⟨fun formed => ?_, rfl⟩
    have short := formed.short
    omega
  have bound := (memory (entry + 10)).toNat_lt
  rw [if_neg long, holds.advance entry (11 + (memory (entry + 10)).toNat) (by omega)]
  by_cases nameOutside : region.finish < entry + (11 + (memory (entry + 10)).toNat)
  · rw [if_pos nameOutside]
    refine Or.inl ⟨fun formed => ?_, rfl⟩
    have nameInside := formed.nameInside
    omega
  rw [if_neg nameOutside, load_inside (held _ 1 (by omega) (by omega)), bind_next, numberAt_byte]
  by_cases nameOpen : (memory (entry + 11 + (memory (entry + 10)).toNat - 1)).toNat ≠ 0
  · rw [if_pos nameOpen]
    refine Or.inl ⟨fun formed => ?_, rfl⟩
    rw [formed.nameEnds] at nameOpen
    exact nameOpen rfl
  rw [if_neg nameOpen]
  refine Or.inr ⟨⟨behind, by omega, by omega, by omega, by omega, ?_⟩, rfl⟩
  exact UInt8.toNat_inj.mp (not_not.mp nameOpen)

theorem NameFormed.terminated {entry : Nat} (formed : NameFormed region memory entry) :
    Terminated region memory (entry + 11) := by
  obtain ⟨behind, inside, named, -, nameInside, nameEnds⟩ := formed
  exact ⟨by omega, entry + 11 + (memory (entry + 10)).toNat - 1, by omega, by omega, nameEnds⟩

theorem extractData_cases (holds : Holds run.host region) {entry : Nat}
    (formed : NameFormed region memory entry) (state : State Target) :
    (region.size < entryOffset run.host memory entry + entryLength run.host memory entry ∧
      extractData run region memory entry state = .exit (-1, { state with err := einval })) ∨
    (entryOffset run.host memory entry + entryLength run.host memory entry ≤ region.size ∧
      ∃ name, stringAt memory (entry + 11) (region.finish - (entry + 11)) = some name ∧
        extractData run region memory entry state =
          extractAttribute run region memory name
            (region.start + entryOffset run.host memory entry)
            (entryLength run.host memory entry) state) := by
  obtain ⟨name, string, loaded⟩ := loadString_terminated (Int × State Target) formed.terminated
  have behind := formed.behind
  have inside := formed.inside
  have held : ∀ address width, entry ≤ address → address + width ≤ region.finish →
      region.Holds address width := fun address width after before => ⟨by omega, before⟩
  have offsetBound : entryOffset run.host memory entry < 2 ^ 32 := numberAt_lt _ 4 memory entry
  have lengthBound : entryLength run.host memory entry < 2 ^ 32 :=
    numberAt_lt _ 4 memory (entry + 4)
  have rejected := holds.data_rejected_iff _ _ offsetBound lengthBound
  have size := holds.fits
  unfold extractData
  rw [loaded, bind_next, load_inside (held (entry + 4) 4 (by omega) (by omega)), bind_next,
    load_inside (held entry 4 (by omega) (by omega)), bind_next]
  unfold entryOffset entryLength at *
  dsimp only
  split
  next outside => exact Or.inl ⟨rejected.mp (Or.inl outside), rfl⟩
  next dataptr =>
    split
    next outside => exact Or.inl ⟨rejected.mp (Or.inr outside), rfl⟩
    next dataend =>
      have dataInside := rejected.not.mp (not_or.mpr ⟨dataptr, dataend⟩)
      have finish : region.finish = region.start + region.size := rfl
      rw [holds.advance region.start (numberAt run.host.order 4 memory entry) (by omega)]
      exact Or.inr ⟨by omega, name, string, rfl⟩

variable (run memory) in
/-- An entry that is not well-formed is rejected with nothing done; of one that is, the name and
the data are handed on. -/
theorem extractEntry_cases (holds : Holds run.host region) (entry : Nat) (state : State Target) :
    (¬ WellFormed run.host region memory entry ∧
      extractEntry run region memory entry state = .exit (-1, { state with err := einval })) ∨
    (WellFormed run.host region memory entry ∧
      ∃ name, stringAt memory (entry + 11) (region.finish - (entry + 11)) = some name ∧
        extractEntry run region memory entry state =
          extractAttribute run region memory name
            (region.start + entryOffset run.host memory entry)
            (entryLength run.host memory entry) state) := by
  rcases extractEntry_name run memory holds entry state with ⟨unformed, corrupt⟩ | ⟨formed, same⟩
  · refine Or.inl ⟨fun whole => unformed ?_, corrupt⟩
    exact ⟨whole.behind, whole.inside, whole.named, whole.short, whole.nameInside, whole.nameEnds⟩
  · rw [same]
    rcases extractData_cases holds formed state with ⟨outside, corrupt⟩ | ⟨dataInside, extracted⟩
    · refine Or.inl ⟨fun whole => ?_, corrupt⟩
      exact absurd whole.dataInside (by omega)
    · exact Or.inr ⟨⟨formed.behind, formed.inside, formed.named, formed.short, formed.nameInside,
        formed.nameEnds, dataInside⟩, extracted⟩

theorem aclLast_inside_iff (holds : Holds run.host region) (offset length : Nat)
    (inside : offset + length ≤ region.size) :
    region.Holds (run.host.advance (region.start + offset) ((length + (2 ^ 32 - 1)) % 2 ^ 32)) 1 ↔
      length ≠ 0 ∨ (run.host.abi = .ilp32 ∧ offset ≠ 0) := by
  have room := run.host.room
  have size := holds.fits
  have start := holds.start
  have allocated := run.host.allocated
  unfold attrMaxHdrSize at room size
  unfold Region.Holds Region.finish Host.advance
  by_cases empty : length = 0
  · revert room
    rw [empty]
    cases run.host.abi with
    | ilp32 =>
        rw [sizeMod_ilp32]
        simp only [ne_eq, not_true_eq_false, false_or, true_and]
        omega
    | lp64 =>
        rw [sizeMod_lp64]
        simp only [ne_eq, not_true_eq_false, false_or, reduceCtorEq, false_and, iff_false]
        omega
  · have index : (length + (2 ^ 32 - 1)) % 2 ^ 32 = length - 1 := by omega
    rw [index, Nat.mod_eq_of_lt (by omega)]
    exact iff_of_true (by omega) (Or.inl empty)

structure Permissive (system : System Target Info) : Prop where
  malloc : ∀ target size, system.malloc target size = true
  readError : ∀ target count offset, system.readError target count offset = none
  flistxattr : ∀ target, ∃ names, system.flistxattr target = .ok names
  fsetxattr : ∀ target name data, ∃ after, system.fsetxattr target name data = .ok after
  setAcl : ∀ target text, ∃ after, system.setAcl target text = (false, after)
  qtnXattrName : system.qtnXattrName ≠ xattrSecurityName

theorem extractAcl_inside (holds : Holds run.host region) (offset length : Nat)
    (inside : offset + length ≤ region.size) (state : State Target)
    (last : length ≠ 0 ∨ (run.host.abi = .ilp32 ∧ offset ≠ 0))
    (terminated : Terminated region memory (region.start + offset)) :
    ¬ (extractAcl run region memory (region.start + offset) length state).Faults ∧
      (Permissive run.system →
        ∃ after, extractAcl run region memory (region.start + offset) length state =
          .next after) := by
  obtain ⟨string, -, loaded⟩ := loadString_terminated (Int × State Target) terminated
  unfold extractAcl
  rw [load_inside ((aclLast_inside_iff holds offset length inside).mpr last), bind_next]
  split
  next refused =>
    refine ⟨faults_exit _, fun permissive => ?_⟩
    exact absurd (permissive.malloc _ _) refused.2
  next granted =>
    rw [loaded, bind_next]
    constructor
    · dsimp only
      split
      · exact faults_exit _
      · exact faults_next _
    · intro permissive
      dsimp only
      obtain ⟨after, set⟩ := permissive.setAcl state.target _
      exact ⟨_, by rw [set]⟩

theorem extractAcl_outside (permissive : Permissive run.system) (holds : Holds run.host region)
    (offset length : Nat) (inside : offset + length ≤ region.size) (state : State Target)
    (outside : ¬ ((length ≠ 0 ∨ (run.host.abi = .ilp32 ∧ offset ≠ 0)) ∧
      Terminated region memory (region.start + offset))) :
    (extractAcl run region memory (region.start + offset) length state).Faults := by
  unfold extractAcl
  by_cases last : length ≠ 0 ∨ (run.host.abi = .ilp32 ∧ offset ≠ 0)
  · have unterminated : ¬ Terminated region memory (region.start + offset) :=
      fun terminated => outside ⟨last, terminated⟩
    rw [load_inside ((aclLast_inside_iff holds offset length inside).mpr last), bind_next]
    split
    next refused => exact absurd (permissive.malloc _ _) refused.2
    next granted =>
      have faults := loadString_faults (Int × State Target) unterminated
      generalize (loadString region memory (region.start + offset) :
        Step Target (List UInt8)) = loaded at faults ⊢
      cases loaded with
      | next value => cases faults
      | exit left => cases faults
      | fault access => exact faults_fault _
  · rw [load_outside ((aclLast_inside_iff holds offset length inside).not.mpr last), bind_fault]
    exact faults_fault _

variable (run memory) in
theorem extractQuarantine_inside (dataptr length : Nat) (state : State Target)
    (data : region.Holds dataptr length) :
    ∃ after, extractQuarantine run region memory dataptr length state = .next after := by
  unfold extractQuarantine
  cases run.qinfo with
  | some info => exact ⟨_, rfl⟩
  | none =>
      dsimp only
      split
      · rw [loadBytes_inside data, bind_next]
        split
        · exact ⟨_, rfl⟩
        · exact ⟨_, rfl⟩
      · exact ⟨_, rfl⟩

theorem extractAttribute_inside (holds : Holds run.host region) (entry : Nat)
    (formed : WellFormed run.host region memory entry) (name : List UInt8)
    (named : stringAt memory (entry + 11) (region.finish - (entry + 11)) = some name)
    (state : State Target) :
    (AclInside run.host run.flags region memory entry →
      ¬ (extractAttribute run region memory name (region.start + entryOffset run.host memory entry)
        (entryLength run.host memory entry) state).Faults) ∧
    (Permissive run.system → AclInside run.host run.flags region memory entry →
      ∃ after, extractAttribute run region memory name
        (region.start + entryOffset run.host memory entry)
        (entryLength run.host memory entry) state = .next after) ∧
    (Permissive run.system → ¬ AclInside run.host run.flags region memory entry →
      (extractAttribute run region memory name (region.start + entryOffset run.host memory entry)
        (entryLength run.host memory entry) state).Faults) := by
  have inside := formed.dataInside
  have data : region.Holds (region.start + entryOffset run.host memory entry)
      (entryLength run.host memory entry) := by
    refine ⟨Nat.le_add_right _ _, ?_⟩
    unfold Region.finish
    omega
  unfold extractAttribute AclInside
  rw [named]
  by_cases quarantined : name = run.system.qtnXattrName
  · rw [if_pos quarantined]
    obtain ⟨after, extracted⟩ := extractQuarantine_inside run memory _ _ state
      data
    rw [extracted]
    refine ⟨fun kept => faults_next _, fun permissive kept => ⟨after, rfl⟩, ?_⟩
    intro permissive outside
    refine absurd (fun acl security => ?_) outside
    rw [quarantined] at security
    exact absurd (Option.some.inj security) permissive.qtnXattrName
  · rw [if_neg quarantined]
    by_cases security : run.flags.acl = true ∧ name = xattrSecurityName
    · obtain ⟨acl, same⟩ := security
      rw [if_pos ⟨acl, same⟩]
      refine ⟨fun kept => ?_, fun permissive kept => ?_, fun permissive outside => ?_⟩
      · obtain ⟨last, terminated⟩ := kept acl (congrArg some same)
        exact (extractAcl_inside holds _ _ inside state last terminated).1
      · obtain ⟨last, terminated⟩ := kept acl (congrArg some same)
        exact (extractAcl_inside holds _ _ inside state last terminated).2 permissive
      · exact extractAcl_outside permissive holds _ _ inside state
          fun kept => outside fun acl security => kept
    · rw [if_neg security]
      split
      · rw [loadBytes_inside data, bind_next]
        refine ⟨fun kept => ?_, fun permissive kept => ?_, fun permissive outside => ?_⟩
        · split
          · exact faults_exit _
          · exact faults_next _
        · obtain ⟨after, set⟩ := permissive.fsetxattr state.target name
            (bytesAt memory (region.start + entryOffset run.host memory entry)
              (entryLength run.host memory entry))
          exact ⟨_, by rw [set]⟩
        · exact absurd (fun acl same => absurd ⟨acl, Option.some.inj same⟩ security) outside
      · refine ⟨fun kept => faults_next _, fun permissive kept => ⟨_, rfl⟩, ?_⟩
        intro permissive outside
        exact absurd (fun acl same => absurd ⟨acl, Option.some.inj same⟩ security) outside

/-! ## All entries -/

variable (run memory) in
theorem extractEntries_inside (holds : Holds run.host region) : ∀ count entry state,
    (AclsInside run.host run.flags region memory count entry →
      ¬ (extractEntries run region memory count entry state).Faults) ∧
    (Permissive run.system → ¬ AclsInside run.host run.flags region memory count entry →
      (extractEntries run region memory count entry state).Faults) := by
  intro count
  induction count with
  | zero =>
      intro entry state
      exact ⟨fun kept => faults_next _, fun permissive outside => absurd True.intro outside⟩
  | succ count ih =>
      intro entry state
      rw [extractEntries]
      rcases extractEntry_cases run memory holds entry state with
        ⟨corrupt, rejected⟩ | ⟨formed, name, named, extracted⟩
      · rw [rejected, bind_exit]
        refine ⟨fun kept => faults_exit _, fun permissive outside => ?_⟩
        exact absurd (fun formed => absurd formed corrupt) outside
      · obtain ⟨quiet, goes, faults⟩ := extractAttribute_inside holds entry formed name named state
        have bounds := attrEntryLength_bounds (memory (entry + 10))
        have behind := formed.behind
        have inside := formed.inside
        have step : ∀ after, (do
            let namelen ← load region run.host.order 1 memory (entry + 10)
            extractEntries run region memory count
              (run.host.advance entry (attrEntryLength namelen)) after) =
            extractEntries run region memory count (attrNext memory entry) after := by
          intro after
          rw [load_inside ⟨by omega, by omega⟩, bind_next, numberAt_byte,
            holds.advance _ _ (by omega)]
          rfl
        rw [extracted]
        constructor
        · intro kept
          obtain ⟨acl, rest⟩ := kept formed
          have noFault := quiet acl
          generalize extractAttribute run region memory name
            (region.start + entryOffset run.host memory entry)
            (entryLength run.host memory entry) state = outcome at noFault ⊢
          cases outcome with
          | next after =>
              rw [bind_next, step]
              exact (ih (attrNext memory entry) after).1 rest
          | exit left => exact faults_exit _
          | fault access => exact absurd (faults_fault access) noFault
        · intro permissive outside
          by_cases acl : AclInside run.host run.flags region memory entry
          · obtain ⟨after, next⟩ := goes permissive acl
            rw [next, bind_next, step]
            exact (ih (attrNext memory entry) after).2 permissive
              fun rest => outside fun formed => ⟨acl, rest⟩
          · have outcome := faults permissive acl
            generalize extractAttribute run region memory name
              (region.start + entryOffset run.host memory entry)
              (entryLength run.host memory entry) state = result at outcome ⊢
            cases result with
            | next after => cases outcome
            | exit left => cases outcome
            | fault access => exact faults_fault _

/-! ## The function -/

variable (run memory) in
theorem extractAttributes_inside (holds : Holds run.host region) (size : 84 - 2 ≤ region.size)
    (state : State Target) :
    ((finderinfosize < numberAt run.host.order 4 memory (region.start + 34) →
        120 ≤ region.size → AttributesInside run.host run.flags region memory) →
      ¬ (extractAttributes run region memory state).Faults) ∧
    (Permissive run.system →
      ¬ (finderinfosize < numberAt run.host.order 4 memory (region.start + 34) →
        120 ≤ region.size → AttributesInside run.host run.flags region memory) →
      (extractAttributes run region memory state).Faults) := by
  have finish : region.finish = region.start + region.size := rfl
  unfold extractAttributes
  rw [load_inside ⟨by omega, by omega⟩, bind_next]
  by_cases attributes : finderinfosize < numberAt run.host.order 4 memory (region.start + 34)
  · rw [if_pos attributes]
    by_cases short : region.size < 120
    · rw [if_pos short]
      refine ⟨fun kept => faults_exit _, fun permissive outside => ?_⟩
      exact absurd (fun _ large => absurd large (by omega)) outside
    · rw [if_neg short]
      obtain ⟨inside, outside⟩ := swapAttrhdr_inside (Int × State Target) holds memory
        (by omega)
      by_cases entries : run.host.order = .little →
          EntriesInside region memory (swapCount run.host.buffer memory) (run.host.buffer + 120)
      · rw [inside entries, bind_next, load_inside ⟨by omega, by omega⟩, bind_next]
        unfold AttributesInside
        rw [← holds.start]
        by_cases magic : numberAt run.host.order 4 (attrhdrInHostOrder run.host memory)
            (region.start + 84) = attrHdrMagic
        · rw [if_neg (not_not.mpr magic), load_inside ⟨by omega, by omega⟩, bind_next]
          obtain ⟨quiet, faults⟩ := extractEntries_inside run
            (attrhdrInHostOrder run.host memory) holds
            (numberAt run.host.order 2 (attrhdrInHostOrder run.host memory) (region.start + 118))
            (region.start + 120) state
          constructor
          · intro kept
            have noFault := quiet ((kept attributes (by omega)).2 magic)
            generalize extractEntries run region (attrhdrInHostOrder run.host memory) _ _ state =
              outcome at noFault ⊢
            cases outcome with
            | next after => exact faults_next _
            | exit left => exact faults_exit _
            | fault access => exact absurd (faults_fault access) noFault
          · intro permissive left
            have fault := faults permissive fun acls =>
              left fun _ _ => ⟨by rw [holds.start]; exact entries, fun _ => acls⟩
            generalize extractEntries run region (attrhdrInHostOrder run.host memory) _ _ state =
              outcome at fault ⊢
            cases outcome with
            | next after => cases fault
            | exit left => cases fault
            | fault access => exact faults_fault _
        · rw [if_pos magic]
          refine ⟨fun kept => faults_exit _, fun permissive left => ?_⟩
          exact absurd (fun _ _ => ⟨by rw [holds.start]; exact entries,
            fun same => absurd same magic⟩) left
      · have fault := outside entries
        refine ⟨fun kept => absurd (kept attributes (by omega)).1 entries, fun permissive left => ?_⟩
        generalize (swapAttrhdr run.host region memory : Step Target Memory) = outcome at fault ⊢
        cases outcome with
        | next after => cases fault
        | exit left => cases fault
        | fault access => exact faults_fault _
  · rw [if_neg attributes]
    refine ⟨fun kept => faults_next _, fun permissive outside => ?_⟩
    exact absurd (fun large => absurd large attributes) outside

variable (run memory) in
theorem extractFinderInfo_inside (holds : Holds run.host region) (size : 84 - 2 ≤ region.size)
    (state : State Target) : ¬ (extractFinderInfo run region memory state).Faults := by
  have finish : region.finish = region.start + region.size := rfl
  have bound := holds.fits
  unfold attrMaxHdrSize at bound
  have room : run.host.abi.sizeT ((region.size : Int) - 32) = region.size - 32 := by
    have same : (region.size : Int) - 32 = ((region.size - 32 : Nat) : Int) := by omega
    rw [same]
    apply sizeT_of_lt
    have wide : 2 ^ 32 ≤ run.host.abi.sizeMod := by
      cases run.host.abi with
      | ilp32 => exact Nat.le_refl _
      | lp64 => exact Nat.pow_le_pow_right (by decide) (by decide)
    omega
  unfold extractFinderInfo
  rw [load_inside ⟨by omega, by omega⟩, bind_next, room]
  split
  · exact faults_exit _
  · rw [holds.advance _ _ (by omega), loadBytes_inside ⟨by omega, by omega⟩, bind_next]
    split
    · split
      · exact faults_exit _
      · exact faults_next _
    · exact faults_next _

variable (run memory) in
theorem extractResourceFork_inside (size : 84 - 2 ≤ region.size) (state : State Target) :
    ¬ (extractResourceFork run region memory state).Faults := by
  have finish : region.finish = region.start + region.size := rfl
  unfold extractResourceFork
  rw [load_inside ⟨by omega, by omega⟩, bind_next, load_inside ⟨by omega, by omega⟩, bind_next]
  split
  · rw [load_inside ⟨by omega, by omega⟩, bind_next]
    exact faults_next _
  · exact faults_next _

variable (run) in
theorem removeAttributes_inside (state : State Target) :
    ¬ (removeAttributes run state).Faults ∧
      (Permissive run.system → ∃ after, removeAttributes run state = .next after) := by
  unfold removeAttributes
  split
  · exact ⟨faults_next _, fun permissive => ⟨_, rfl⟩⟩
  cases listed : run.system.flistxattr state.target with
  | error error =>
      dsimp only
      constructor
      · split
        · exact faults_exit _
        · exact faults_next _
      · intro permissive
        obtain ⟨names, found⟩ := permissive.flistxattr state.target
        cases listed.symm.trans found
  | ok names =>
      cases names with
      | nil => exact ⟨faults_next _, fun permissive => ⟨_, rfl⟩⟩
      | cons first rest =>
          dsimp only
          split
          next refused =>
            refine ⟨faults_exit _, fun permissive => ?_⟩
            exact absurd (permissive.malloc _ _) refused
          next granted => exact ⟨faults_next _, fun permissive => ⟨_, rfl⟩⟩

theorem checkHeader_cases (region : Region) (memory : Memory) (state : State Target) :
    (¬ AppleDouble region memory ∧ checkHeader region memory state = .exit (-1, state)) ∨
      (AppleDouble region memory ∧ checkHeader region memory state = .next ()) := by
  have finish : region.finish = region.start + region.size := rfl
  unfold checkHeader
  by_cases short : region.size < 84 - 2
  · refine Or.inl ⟨fun header => ?_, if_pos short⟩
    have inside := header.inside
    omega
  rw [if_neg short, load_inside ⟨by omega, by omega⟩, bind_next]
  by_cases magic : numberAt .big 4 memory region.start ≠ adhMagic
  · exact Or.inl ⟨fun header => magic header.magic, if_pos magic⟩
  rw [if_neg magic, load_inside ⟨by omega, by omega⟩, bind_next]
  by_cases version : numberAt .big 4 memory (region.start + 4) ≠ adhVersion
  · exact Or.inl ⟨fun header => version header.version, if_pos version⟩
  rw [if_neg version, load_inside ⟨by omega, by omega⟩, bind_next]
  by_cases numEntries : numberAt .big 2 memory (region.start + 24) ≠ 2
  · exact Or.inl ⟨fun header => numEntries header.numEntries, if_pos numEntries⟩
  rw [if_neg numEntries, load_inside ⟨by omega, by omega⟩, bind_next]
  by_cases type : numberAt .big 4 memory (region.start + 26) ≠ adFinderinfo
  · exact Or.inl ⟨fun header => type header.type, if_pos type⟩
  · rw [if_neg type]
    exact Or.inr ⟨⟨by omega, not_not.mp magic, not_not.mp version, not_not.mp numEntries,
      not_not.mp type⟩, rfl⟩

theorem unpackRest_inside (holds : Holds run.host region) (size : 84 - 2 ≤ region.size)
    (memory : Memory) (state : State Target) :
    ¬ (do
      let state ← extractFinderInfo run region memory state
      let (error, state) ← extractResourceFork run region memory state
      if run.flags.stat then
        let (error, target) := run.system.copyfileStat state.target
        return (error, { state with target := target })
      else return (error, state) : Step Target (Int × State Target)).Faults := by
  have finder := extractFinderInfo_inside run memory holds size state
  cases found : extractFinderInfo run region memory state with
  | exit left => exact faults_exit _
  | fault access =>
      rw [found] at finder
      exact absurd (faults_fault access) finder
  | next after =>
      have resource := extractResourceFork_inside run memory size after
      rw [bind_next]
      cases forked : extractResourceFork run region memory after with
      | exit left => exact faults_exit _
      | fault access =>
          rw [forked] at resource
          exact absurd (faults_fault access) resource
      | next last =>
          rw [bind_next]
          dsimp only
          split
          · exact faults_next _
          · exact faults_next _

variable (run) in
theorem unpackHeader_inside (holds : Holds run.host region) (memory : Memory)
    (state : State Target) :
    ((HasAttributes run.host region memory →
        AttributesInside run.host run.flags region (adhdrInHostOrder run.host memory)) →
      ¬ (unpackHeader run region memory state).Faults) ∧
    (Permissive run.system →
      ¬ (HasAttributes run.host region memory →
        AttributesInside run.host run.flags region (adhdrInHostOrder run.host memory)) →
      (unpackHeader run region memory state).Faults) := by
  have finish : region.finish = region.start + region.size := rfl
  unfold unpackHeader
  rcases checkHeader_cases region memory state with ⟨invalid, rejected⟩ | ⟨header, passed⟩
  · rw [rejected, bind_exit]
    refine ⟨fun kept => faults_exit _, fun permissive outside => ?_⟩
    exact absurd (fun attributes => absurd attributes.header invalid) outside
  · have size := header.inside
    have two : numberAt
        (if numberAt .little 4 memory region.start = adhMagic then .little else .big) 2 memory
        (region.start + 24) = 2 := by
      rw [if_neg (adhMagic_oriented memory region.start header.magic)]
      exact header.numEntries
    rw [passed, bind_next, swapAdhdr_inside holds memory size two, bind_next]
    have removed := removeAttributes_inside run state
    have attributes := extractAttributes_inside run
      (adhdrInHostOrder run.host memory) holds size
    have same : (HasAttributes run.host region memory →
          AttributesInside run.host run.flags region (adhdrInHostOrder run.host memory)) ↔
        (finderinfosize < numberAt run.host.order 4 (adhdrInHostOrder run.host memory)
            (region.start + 34) →
          120 ≤ region.size →
            AttributesInside run.host run.flags region (adhdrInHostOrder run.host memory)) := by
      constructor
      · exact fun kept large inside => kept ⟨header, large, inside⟩
      · exact fun kept has => kept has.attributes has.inside
    rw [same]
    generalize removeAttributes run state = before at removed ⊢
    cases before with
    | exit left =>
        refine ⟨fun kept => faults_exit _, fun permissive outside => ?_⟩
        obtain ⟨after, next⟩ := removed.2 permissive
        cases next
    | fault access => exact absurd (faults_fault access) removed.1
    | next start =>
        rw [bind_next]
        constructor
        · intro kept
          have noFault := (attributes start).1 kept
          generalize extractAttributes run region (adhdrInHostOrder run.host memory) start =
            outcome at noFault ⊢
          cases outcome with
          | next after => exact unpackRest_inside holds size after.1 after.2
          | exit left => exact faults_exit _
          | fault access => exact absurd (faults_fault access) noFault
        · intro permissive outside
          have fault := (attributes start).2 permissive outside
          generalize extractAttributes run region (adhdrInHostOrder run.host memory) start =
            outcome at fault ⊢
          cases outcome with
          | next after => cases fault
          | exit left => cases fault
          | fault access => exact faults_fault _

end Extract

theorem headerRegion_holds (host : Host attrMaxHdrSize) (file : List UInt8) :
    Holds host (headerRegion host file) := by
  refine ⟨rfl, ?_⟩
  unfold headerRegion hdrsize
  dsimp only
  split
  next less => exact Nat.le_of_lt less
  next => exact Nat.le_refl _

theorem hdrsize_read (file : List UInt8) :
    (slice file 0 (hdrsize file)).length = hdrsize file := by
  apply length_slice
  unfold hdrsize
  split
  · omega
  · omega

def permissiveSystem : System Unit Unit where
  malloc _ _ := true
  readError _ _ _ := none
  flistxattr _ := .ok []
  fremovexattr target _ := target
  fsetxattr target _ _ := .ok target
  qtnXattrName := ascii "com.apple.quarantine"
  qtnFileAlloc _ := true
  qtnFileInitWithData _ := some ()
  qtnFileApplyToFd target _ := target
  setAcl target _ := (false, target)
  fstat _ := some false
  futimes target := target
  copyfileStat target := (0, target)

theorem permissiveSystem_permissive : Permissive permissiveSystem := by
  constructor
  · exact fun target size => rfl
  · exact fun target count offset => rfl
  · exact fun target => ⟨[], rfl⟩
  · exact fun target name data => ⟨(), rfl⟩
  · exact fun target text => ⟨(), rfl⟩
  · decide

/-- Whatever the calls do, the function stays inside the buffer exactly when the entries that the
swap goes through start inside it, and the access control lists that it comes to are not empty
and end inside it. Where an entry is not well-formed it is rejected with nothing done. -/
theorem copyfileUnpack_inside_iff (host : Host attrMaxHdrSize) (flags : Flags)
    (file : List UInt8) :
    ((∀ (Target Info : Type) (system : System Target Info) (qinfo : Option Info)
        (state : State Target),
      ¬ (copyfileUnpack ⟨host, system, flags, qinfo, file⟩ state).Faults) ↔
      HeaderInside host flags file) ∧
    ∀ (Target Info : Type) (system : System Target Info) (qinfo : Option Info) (memory : Memory)
        (entry : Nat) (state : State Target),
      ¬ WellFormed host (headerRegion host file) memory entry →
        extractEntry ⟨host, system, flags, qinfo, file⟩ (headerRegion host file) memory entry
          state = .exit (-1, { state with err := einval }) := by
  have holds := headerRegion_holds host file
  have read : ∀ (Target Info : Type) (system : System Target Info) (target : Target),
      system.readError target (headerRegion host file).size 0 = none →
        pread system target file (headerRegion host file).size 0 =
          .ok (slice file 0 (hdrsize file)) := by
    intro Target Info system target whole
    rw [pread, whole]
    rfl
  have long : ¬ (slice file 0 (hdrsize file)).length < (headerRegion host file).size := by
    rw [hdrsize_read]
    exact Nat.lt_irrefl _
  refine ⟨⟨fun quiet => ?_, fun kept Target Info system qinfo state => ?_⟩, ?_⟩
  · by_contra outside
    have fault := (unpackHeader_inside ⟨host, permissiveSystem, flags, none, file⟩ holds
      (headerMemory host file) ⟨(), 0⟩).2 permissiveSystem_permissive outside
    refine quiet Unit Unit permissiveSystem none ⟨(), 0⟩ ?_
    unfold copyfileUnpack
    dsimp only
    have granted : permissiveSystem.malloc () (headerRegion host file).size = true := rfl
    rw [if_neg (not_not.mpr granted), read _ _ _ _ rfl]
    dsimp only
    rw [if_neg long]
    exact fault
  · unfold copyfileUnpack
    dsimp only
    split
    · exact faults_exit _
    · cases error : system.readError state.target (headerRegion host file).size 0 with
      | some error' =>
          rw [pread, error]
          exact faults_exit _
      | none =>
          rw [read _ _ _ _ error]
          dsimp only
          rw [if_neg long]
          exact (unpackHeader_inside ⟨host, system, flags, qinfo, file⟩ holds
            (headerMemory host file) state).1 kept
  · intro Target Info system qinfo memory entry state malformed
    rcases extractEntry_cases ⟨host, system, flags, qinfo, file⟩ memory holds
      entry state with ⟨-, rejected⟩ | ⟨formed, -⟩
    · exact rejected
    · exact absurd formed malformed

def littleHost : Host attrMaxHdrSize := ⟨.lp64, .little, 4096, by decide, by decide⟩

def entrylessFile : List UInt8 :=
  encode .big 4 adhMagic ++ encode .big 4 adhVersion ++ List.replicate 16 0 ++ encode .big 2 2 ++
    (encode .big 4 adFinderinfo ++ encode .big 4 50 ++ encode .big 4 70) ++
    (encode .big 4 adResource ++ encode .big 4 120 ++ encode .big 4 0) ++ List.replicate 34 0 ++
    encode .big 4 attrHdrMagic ++ encode .big 4 0 ++ encode .big 4 120 ++ encode .big 4 120 ++
    encode .big 4 0 ++ List.replicate 12 0 ++ encode .big 2 0 ++ encode .big 2 1

theorem copyfileUnpack_leaves_buffer :
    hdrsize entrylessFile = 120 ∧
      (copyfileUnpack ⟨littleHost, permissiveSystem, ⟨false, true, false⟩, none, entrylessFile⟩
        ⟨(), 0⟩).Faults :=
  ⟨by decide, by decide +kernel⟩

end LegacySupport.Copyfile
