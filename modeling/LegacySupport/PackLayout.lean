import LegacySupport.PackCore
import LegacySupport.UnpackBounds

/-!
The table of attributes in a header: what it holds for a list of attributes, and that it holds
the same after the numbers in it have been swapped, or the header has been copied.
-/

namespace LegacySupport.Copyfile

open Bytes CInt CheckedMemory

variable {size : Nat}

abbrev Attributes := List (List UInt8 × List UInt8)

def namelen (name : List UInt8) : Nat := name.length + 1

def Named (names : List (List UInt8)) : Prop :=
  ∀ name ∈ names, namelen name ≤ xattrMaxnamelen + 1 ∧ ∀ byte ∈ name, byte ≠ 0

theorem Named.tail {name : List UInt8} {names : List (List UInt8)} (named : Named (name :: names)) :
    Named names :=
  fun other member => named other (List.mem_cons_of_mem _ member)

def entriesEnd (entry : Nat) : List (List UInt8) → Nat
  | [] => entry
  | name :: names => entriesEnd (entry + attrEntryLength (namelen name)) names

structure NameAt (memory : Memory) (entry : Nat) (name : List UInt8) : Prop where
  length : memory (entry + 10) = UInt8.ofNat (namelen name)
  bytes : bytesAt memory (entry + 11) (namelen name) = name ++ [0]

/-- The entry has this attribute, whose data start at this offset from the start of the header. An
empty attribute may have none. The data are as they should be below a limit. -/
structure EntryAt (order : ByteOrder) (memory : Memory) (base limit entry offset : Nat)
    (attr : List UInt8 × List UInt8) : Prop where
  name : NameAt memory entry attr.1
  place : ∃ start, (start = offset ∨ (start = 0 ∧ attr.2 = [])) ∧
    bytesAt memory entry 4 = encode order 4 start
  length : bytesAt memory (entry + 4) 4 = encode order 4 attr.2.length
  data : offset + attr.2.length ≤ limit →
    bytesAt memory (base + offset) attr.2.length = attr.2

def EntriesAt (order : ByteOrder) (memory : Memory) (base limit : Nat) :
    Nat → Nat → Attributes → Prop
  | _, _, [] => True
  | entry, offset, attr :: rest =>
      EntryAt order memory base limit entry offset attr ∧
        EntriesAt order memory base limit (entry + attrEntryLength (namelen attr.1))
          (offset + attr.2.length) rest

theorem attrEntryLength_namelen (name : List UInt8) :
    11 + namelen name ≤ attrEntryLength (namelen name) ∧
      attrEntryLength (namelen name) ≤ namelen name + 14 := by
  unfold attrEntryLength
  omega

theorem entriesEnd_le (names : List (List UInt8)) : ∀ entry, entry ≤ entriesEnd entry names := by
  induction names with
  | nil => exact fun entry => Nat.le_refl entry
  | cons name names ih =>
      intro entry
      have rest := ih (entry + attrEntryLength (namelen name))
      rw [entriesEnd]
      omega

theorem entriesEnd_add (base : Nat) (names : List (List UInt8)) : ∀ entry,
    entriesEnd (base + entry) names = base + entriesEnd entry names := by
  induction names with
  | nil => exact fun entry => rfl
  | cons name names ih =>
      intro entry
      rw [entriesEnd, entriesEnd, Nat.add_assoc, ih]

theorem NameAt.toNat {memory : Memory} {entry : Nat} {name : List UInt8}
    (named : NameAt memory entry name) (short : namelen name ≤ xattrMaxnamelen + 1) :
    (memory (entry + 10)).toNat = namelen name := by
  rw [named.length, UInt8.toNat_ofNat']
  unfold xattrMaxnamelen at short
  exact Nat.mod_eq_of_lt (by omega)

theorem NameAt.next {memory : Memory} {entry : Nat} {name : List UInt8}
    (named : NameAt memory entry name) (short : namelen name ≤ xattrMaxnamelen + 1) :
    attrNext memory entry = entry + attrEntryLength (namelen name) := by
  rw [attrNext, named.toNat short]

/-! ## Copies -/

section Copies

variable {memory other : Memory} {base otherBase limit : Nat}

theorem bytesAt_copied (start count : Nat)
    (same : ∀ index < count, memory (base + (start + index)) = other (otherBase + (start + index))) :
    bytesAt other (otherBase + start) count = bytesAt memory (base + start) count := by
  apply List.ext_getElem
  · rw [length_bytesAt, length_bytesAt]
  · intro index left right
    rw [getElem_bytesAt, getElem_bytesAt, Nat.add_assoc, Nat.add_assoc]
    rw [length_bytesAt] at left
    exact (same index left).symm

theorem entriesAt_copied {order : ByteOrder} {low before : Nat} (shorter : limit ≤ before)
    (same : ∀ index, low ≤ index → index < limit →
      memory (base + index) = other (otherBase + index)) : ∀ attributes entry offset,
    low ≤ entry → low ≤ offset → entriesEnd entry (attributes.map Prod.fst) ≤ limit →
      EntriesAt order memory base before (base + entry) offset attributes →
        EntriesAt order other otherBase limit (otherBase + entry) offset attributes := by
  intro attributes
  induction attributes with
  | nil => exact fun entry offset behind far inside entries => True.intro
  | cons attr rest ih =>
      intro entry offset behind far inside entries
      obtain ⟨first, others⟩ := entries
      have bounds := attrEntryLength_namelen attr.1
      have ends := entriesEnd_le (rest.map Prod.fst) (entry + attrEntryLength (namelen attr.1))
      rw [List.map_cons, entriesEnd] at inside
      have copied : ∀ start count, low ≤ start → start + count ≤ limit →
          bytesAt other (otherBase + start) count = bytesAt memory (base + start) count :=
        fun start count lower upper => bytesAt_copied start count fun index bound =>
          same (start + index) (by omega) (by omega)
      constructor
      · obtain ⟨start, meant, stored⟩ := first.place
        constructor
        · constructor
          · rw [Nat.add_assoc, ← same (entry + 10) (by omega) (by omega), ← Nat.add_assoc]
            exact first.name.length
          · rw [Nat.add_assoc, copied _ _ (by omega) (by omega), ← Nat.add_assoc]
            exact first.name.bytes
        · refine ⟨start, meant, ?_⟩
          rw [copied _ _ (by omega) (by omega)]
          exact stored
        · rw [Nat.add_assoc, copied _ _ (by omega) (by omega), ← Nat.add_assoc]
          exact first.length
        · intro fits
          rw [copied _ _ far (by omega)]
          exact first.data (by omega)
      · rw [Nat.add_assoc]
        exact ih _ _ (by omega) (by omega) inside (by rw [← Nat.add_assoc]; exact others)

end Copies

theorem bytesAt_placed (base offset count : Nat) (bytes : List UInt8)
    (inside : offset + count ≤ bytes.length) :
    bytesAt (placed base bytes) (base + offset) count = slice bytes offset count := by
  apply List.ext_getElem
  · rw [length_bytesAt, length_slice inside]
  · intro index left right
    rw [length_bytesAt] at left
    have place : base + offset + index - base = offset + index := by omega
    simp only [getElem_bytesAt, placed, slice, List.getElem_take, List.getElem_drop, place]
    exact (List.getElem_eq_getD 0).symm

/-! ## The swap of the entries -/

def flipped : ByteOrder → ByteOrder
  | .little => .big
  | .big => .little

theorem encode_flipped (order : ByteOrder) (width value : Nat) :
    encode (flipped order) width value = (encode order width value).reverse := by
  cases order with
  | little => rfl
  | big => exact (List.reverse_reverse _).symm

theorem attrEntryFields_reversed (memory : Memory) (entry : Nat) :
    bytesAt (fieldsReversed memory (attrEntryFields entry)) entry 4 =
        (bytesAt memory entry 4).reverse ∧
      bytesAt (fieldsReversed memory (attrEntryFields entry)) (entry + 4) 4 =
        (bytesAt memory (entry + 4) 4).reverse ∧
      ∀ address, (address < entry ∨ entry + 10 ≤ address) →
        fieldsReversed memory (attrEntryFields entry) address = memory address := by
  refine ⟨?_, ?_, ?_⟩
  · simp only [attrEntryFields, fieldsReversed]
    rw [bytesAt_reversed_outside _ _ _ _ _ (by omega),
      bytesAt_reversed_outside _ _ _ _ _ (by omega), bytesAt_reversed]
  · simp only [attrEntryFields, fieldsReversed]
    rw [bytesAt_reversed_outside _ _ _ _ _ (by omega), bytesAt_reversed,
      bytesAt_reversed_outside _ _ _ _ _ (by omega)]
  · intro address outside
    apply fieldsReversed_outside
    intro field member
    simp only [attrEntryFields, List.mem_cons, List.not_mem_nil, or_false] at member
    rcases member with rfl | rfl | rfl
    · dsimp only
      omega
    · dsimp only
      omega
    · dsimp only
      omega

theorem attrEntriesReversed_below : ∀ count entry memory address, address < entry →
    attrEntriesReversed count entry memory address = memory address := by
  intro count
  induction count with
  | zero => exact fun entry memory address before => rfl
  | succ count ih =>
      intro entry memory address before
      have later : address < attrNext memory entry := by
        unfold attrNext
        omega
      rw [attrEntriesReversed, ih _ _ address later]
      exact (attrEntryFields_reversed memory entry).2.2 address (Or.inl before)

def NamesAt (memory : Memory) : Nat → List (List UInt8) → Prop
  | _, [] => True
  | entry, name :: names =>
      NameAt memory entry name ∧ NamesAt memory (entry + attrEntryLength (namelen name)) names

theorem EntriesAt.names {order : ByteOrder} {memory : Memory} {base limit : Nat} :
    ∀ attributes entry offset, EntriesAt order memory base limit entry offset attributes →
      NamesAt memory entry (attributes.map Prod.fst) := by
  intro attributes
  induction attributes with
  | nil => exact fun entry offset entries => True.intro
  | cons attr rest ih =>
      intro entry offset entries
      exact ⟨entries.1.name, ih _ _ entries.2⟩

theorem namesAt_copied {memory other : Memory} {base otherBase : Nat} : ∀ names entry,
    (∀ index, entry ≤ index → index < entriesEnd entry names →
      memory (base + index) = other (otherBase + index)) →
      NamesAt memory (base + entry) names → NamesAt other (otherBase + entry) names := by
  intro names
  induction names with
  | nil => exact fun entry same named => True.intro
  | cons name names ih =>
      intro entry same named
      have bounds := attrEntryLength_namelen name
      have ends := entriesEnd_le names (entry + attrEntryLength (namelen name))
      rw [entriesEnd] at same
      refine ⟨⟨?_, ?_⟩, ?_⟩
      · rw [Nat.add_assoc, ← same (entry + 10) (by omega) (by omega), ← Nat.add_assoc]
        exact named.1.length
      · rw [← named.1.bytes, Nat.add_assoc, Nat.add_assoc]
        exact bytesAt_copied _ _ fun index bound => same _ (by omega) (by omega)
      · rw [Nat.add_assoc]
        exact ih _ (fun index behind before => same index (by omega) before)
          (by rw [← Nat.add_assoc]; exact named.2)

theorem namesAt_congr {memory other : Memory} (names : List (List UInt8)) (entry : Nat)
    (same : ∀ address, entry ≤ address → address < entriesEnd entry names →
      memory address = other address) (named : NamesAt memory entry names) :
    NamesAt other entry names := by
  have copied := @namesAt_copied memory other 0 0 names entry
  simp only [Nat.zero_add] at copied
  exact copied same named

theorem attrEntriesReversed_behind : ∀ names entry memory address, Named names →
    NamesAt memory entry names → entriesEnd entry names ≤ address →
      attrEntriesReversed names.length entry memory address = memory address := by
  intro names
  induction names with
  | nil => exact fun entry memory address short named after => rfl
  | cons name names ih =>
      intro entry memory address short named after
      have bounds := attrEntryLength_namelen name
      have ends := entriesEnd_le names (entry + attrEntryLength (namelen name))
      obtain ⟨-, -, rest⟩ := attrEntryFields_reversed memory entry
      rw [entriesEnd] at after
      rw [List.length_cons, attrEntriesReversed,
        named.1.next (short name List.mem_cons_self).1]
      have others : NamesAt (fieldsReversed memory (attrEntryFields entry))
          (entry + attrEntryLength (namelen name)) names :=
        namesAt_congr names _ (fun other behind before => (rest other (by omega)).symm) named.2
      rw [ih _ _ address short.tail others after]
      exact rest address (by omega)

theorem namesAt_swapped : ∀ names entry memory, Named names → NamesAt memory entry names →
    NamesAt (attrEntriesReversed names.length entry memory) entry names := by
  intro names
  induction names with
  | nil => exact fun entry memory short named => True.intro
  | cons name names ih =>
      intro entry memory short named
      obtain ⟨first, others⟩ := named
      have bounds := attrEntryLength_namelen name
      obtain ⟨-, -, kept⟩ := attrEntryFields_reversed memory entry
      have swapped := ih (entry + attrEntryLength (namelen name)) _ short.tail
        (namesAt_congr names _ (fun address lower upper => (kept address (by omega)).symm) others)
      have below := attrEntriesReversed_below names.length
        (entry + attrEntryLength (namelen name)) (fieldsReversed memory (attrEntryFields entry))
      rw [List.length_cons, attrEntriesReversed, first.next (short name List.mem_cons_self).1]
      refine ⟨⟨?_, ?_⟩, swapped⟩
      · rw [below _ (by omega), kept _ (by omega)]
        exact first.length
      · rw [← first.bytes]
        exact bytesAt_congr _ _ fun index bound => by rw [below _ (by omega), kept _ (by omega)]

theorem entriesAt_swapped {order : ByteOrder} {base limit : Nat} :
    ∀ attributes entry offset memory, Named (attributes.map Prod.fst) →
      entriesEnd entry (attributes.map Prod.fst) ≤ offset →
        entriesEnd entry (attributes.map Prod.fst) ≤ limit →
          EntriesAt order memory base limit (base + entry) offset attributes →
            EntriesAt (flipped order)
              (attrEntriesReversed attributes.length (base + entry) memory) base limit
              (base + entry) offset attributes := by
  intro attributes
  induction attributes with
  | nil => exact fun entry offset memory short before inside entries => True.intro
  | cons attr rest ih =>
      intro entry offset memory short before inside entries
      obtain ⟨first, others⟩ := entries
      have bounds := attrEntryLength_namelen attr.1
      have ends := entriesEnd_le (rest.map Prod.fst) (entry + attrEntryLength (namelen attr.1))
      have shortFirst := (short attr.1 List.mem_cons_self).1
      have shortRest : Named (rest.map Prod.fst) := Named.tail short
      obtain ⟨start, length, kept⟩ := attrEntryFields_reversed memory (base + entry)
      rw [List.map_cons, entriesEnd] at before inside
      have swappedRest : EntriesAt order (fieldsReversed memory (attrEntryFields (base + entry)))
          base limit (base + (entry + attrEntryLength (namelen attr.1)))
          (offset + attr.2.length) rest := by
        rw [Nat.add_assoc] at others
        exact entriesAt_copied (Nat.le_refl limit)
          (fun index lower upper => (kept _ (by omega)).symm) rest
          (entry + attrEntryLength (namelen attr.1)) _ (Nat.le_refl _) (by omega) inside others
      have swapped := ih (entry + attrEntryLength (namelen attr.1)) (offset + attr.2.length) _
        shortRest (by omega) inside swappedRest
      have below := attrEntriesReversed_below rest.length
        (base + (entry + attrEntryLength (namelen attr.1)))
        (fieldsReversed memory (attrEntryFields (base + entry)))
      have behind := attrEntriesReversed_behind (rest.map Prod.fst)
        (base + (entry + attrEntryLength (namelen attr.1)))
        (fieldsReversed memory (attrEntryFields (base + entry)))
      rw [List.length_cons, attrEntriesReversed, first.name.next shortFirst, Nat.add_assoc]
      rw [List.length_map, entriesEnd_add] at behind
      refine ⟨⟨⟨?_, ?_⟩, ?_, ?_, fun fits => ?_⟩, ?_⟩
      · rw [below _ (by omega), kept _ (by omega)]
        exact first.name.length
      · rw [← first.name.bytes]
        exact bytesAt_congr _ _ fun index bound => by rw [below _ (by omega), kept _ (by omega)]
      · obtain ⟨place, meant, stored⟩ := first.place
        refine ⟨place, meant, ?_⟩
        rw [bytesAt_congr _ _ fun index bound => below _ (by omega), start, stored,
          encode_flipped]
      · rw [bytesAt_congr _ _ fun index bound => below _ (by omega), length, first.length,
          encode_flipped]
      · refine (bytesAt_congr _ _ fun index bound => ?_).trans (first.data fits)
        rw [behind _ shortRest swappedRest.names (by omega), kept _ (by omega)]
      · rw [← Nat.add_assoc] at swapped ⊢
        exact swapped

/-! ## The fields of the header -/

def Ascending (fields : List (Nat × Nat)) : Prop :=
  fields.Pairwise fun first second => first.2 + first.1 ≤ second.2

theorem bytesAt_fieldsReversed_outside (fields : List (Nat × Nat)) (memory : Memory)
    (address count : Nat)
    (outside : ∀ field ∈ fields, address + count ≤ field.2 ∨ field.2 + field.1 ≤ address) :
    bytesAt (fieldsReversed memory fields) address count = bytesAt memory address count := by
  apply bytesAt_congr
  intro index bound
  apply fieldsReversed_outside
  intro field member
  have beside := outside field member
  omega

theorem bytesAt_fieldsReversed (width address : Nat) : ∀ fields memory, Ascending fields →
    (width, address) ∈ fields →
      bytesAt (fieldsReversed memory fields) address width =
        (bytesAt memory address width).reverse := by
  intro fields
  induction fields with
  | nil =>
      intro memory ascending member
      cases member
  | cons field fields ih =>
      intro memory ascending member
      obtain ⟨first, start⟩ := field
      obtain ⟨before, rest⟩ := List.pairwise_cons.mp ascending
      rw [fieldsReversed]
      rcases List.mem_cons.mp member with same | later
      · cases same
        rw [bytesAt_fieldsReversed_outside fields _ address width fun other inside =>
          Or.inl (before other inside)]
        exact bytesAt_reversed memory address width
      · have after : start + first ≤ address := before (width, address) later
        rw [ih _ rest later]
        rw [bytesAt_reversed_outside memory start first address width (Or.inr after)]

theorem adhdrFields_ascending (adh : Nat) : Ascending (adhdrFields adh) := by
  simp [Ascending, adhdrFields]

theorem attrhdrFields_ascending (ah : Nat) : Ascending (attrhdrFields ah) := by
  simp [Ascending, attrhdrFields]

def FieldsAt (order : ByteOrder) (memory : Memory) (base : Nat) (values : List (Nat × Nat × Nat)) :
    Prop :=
  ∀ value ∈ values,
    bytesAt memory (base + value.1) value.2.1 = encode order value.2.1 value.2.2

theorem FieldsAt.number {order : ByteOrder} {memory : Memory} {base : Nat}
    {values : List (Nat × Nat × Nat)} (fields : FieldsAt order memory base values)
    (offset width value : Nat) (member : (offset, width, value) ∈ values)
    (fits : value < 256 ^ width) : numberAt order width memory (base + offset) = value := by
  rw [numberAt, fields (offset, width, value) member]
  exact decode_encode fits

theorem FieldsAt.copied {order : ByteOrder} {memory other : Memory} {base otherBase low high : Nat}
    {values : List (Nat × Nat × Nat)} (fields : FieldsAt order memory base values)
    (inside : ∀ value ∈ values, low ≤ value.1 ∧ value.1 + value.2.1 ≤ high)
    (same : ∀ index, low ≤ index → index < high →
      memory (base + index) = other (otherBase + index)) :
    FieldsAt order other otherBase values := by
  intro value member
  obtain ⟨lower, upper⟩ := inside value member
  rw [← fields value member]
  exact bytesAt_copied value.1 value.2.1 fun index bound => same _ (by omega) (by omega)

theorem FieldsAt.swapped {order : ByteOrder} {memory : Memory} {base : Nat}
    {values : List (Nat × Nat × Nat)} {fields : List (Nat × Nat)} (ascending : Ascending fields)
    (inside : ∀ value ∈ values, (value.2.1, base + value.1) ∈ fields)
    (at' : FieldsAt order memory base values) :
    FieldsAt (flipped order) (fieldsReversed memory fields) base values := by
  intro value member
  rw [bytesAt_fieldsReversed _ _ fields memory ascending (inside value member),
    at' value member, encode_flipped]

def adhdrValues (hdr : FileHdr) : List (Nat × Nat × Nat) :=
  [(0, 4, adhMagic), (4, 4, adhVersion), (24, 2, 2), (26, 4, adFinderinfo), (30, 4, 50),
    (34, 4, hdr.finderLength), (38, 4, adResource), (42, 4, hdr.rsrcOffset),
    (46, 4, hdr.rsrcLength)]

def attrhdrValues (hdr : FileHdr) : List (Nat × Nat × Nat) :=
  [(84, 4, attrHdrMagic), (118, 2, hdr.numAttrs)]

theorem adhdrValues_inside (hdr : FileHdr) :
    ∀ value ∈ adhdrValues hdr, 0 ≤ value.1 ∧ value.1 + value.2.1 ≤ 50 := by
  intro value member
  simp only [adhdrValues, List.mem_cons, List.not_mem_nil, or_false] at member
  rcases member with rfl | rfl | rfl | rfl | rfl | rfl | rfl | rfl | rfl <;> (dsimp only; omega)

theorem attrhdrValues_inside (hdr : FileHdr) :
    ∀ value ∈ attrhdrValues hdr, 84 ≤ value.1 ∧ value.1 + value.2.1 ≤ 120 := by
  intro value member
  simp only [attrhdrValues, List.mem_cons, List.not_mem_nil, or_false] at member
  rcases member with rfl | rfl <;> (dsimp only; omega)

theorem adhdrValues_fields (hdr : FileHdr) (base : Nat) :
    ∀ value ∈ adhdrValues hdr, (value.2.1, base + value.1) ∈ adhdrFields base := by
  intro value member
  simp only [adhdrValues, List.mem_cons, List.not_mem_nil, or_false] at member
  rcases member with rfl | rfl | rfl | rfl | rfl | rfl | rfl | rfl | rfl <;> simp [adhdrFields]

theorem attrhdrValues_fields (hdr : FileHdr) (base : Nat) :
    ∀ value ∈ attrhdrValues hdr, (value.2.1, base + value.1) ∈ attrhdrFields base := by
  intro value member
  simp only [attrhdrValues, List.mem_cons, List.not_mem_nil, or_false] at member
  rcases member with rfl | rfl <;> simp [attrhdrFields]

theorem adhdrFields_outside (memory : Memory) (adh address : Nat)
    (outside : address < adh ∨ adh + 50 ≤ address) :
    fieldsReversed memory (adhdrFields adh) address = memory address := by
  apply fieldsReversed_outside
  intro field member
  simp only [adhdrFields, List.mem_cons, List.not_mem_nil, or_false] at member
  rcases member with rfl | rfl | rfl | rfl | rfl | rfl | rfl | rfl | rfl <;>
    (dsimp only; omega)

theorem attrhdrFields_outside (memory : Memory) (ah address : Nat)
    (outside : address < ah + 84 ∨ ah + 120 ≤ address) :
    fieldsReversed memory (attrhdrFields ah) address = memory address := by
  apply fieldsReversed_outside
  intro field member
  simp only [attrhdrFields, List.mem_cons, List.not_mem_nil, or_false] at member
  rcases member with rfl | rfl | rfl | rfl | rfl | rfl | rfl <;> (dsimp only; omega)

section Fields

variable {host : Host attrMaxSize} {hdr : FileHdr}

theorem length_bytes (finfo : hdr.finfo.length = 32) (order : ByteOrder) :
    (hdr.bytes order).length = 120 := by
  have macosx : adhMacosx.length = 16 := by decide
  simp [FileHdr.bytes, FileHdr.fields, finfo, macosx]

theorem memory_field (finfo : hdr.finfo.length = 32) (index : Nat)
    (bound : index < (hdr.fields host.order).length) (offset width : Nat) (positive : 0 < width)
    (starts : (((hdr.fields host.order).take index).map List.length).sum = offset)
    (length : ((hdr.fields host.order)[index]).length = width) :
    bytesAt (hdr.memory host) (host.buffer + offset) width = (hdr.fields host.order)[index] := by
  have field := slice_flatten (hdr.fields host.order) index bound
  have all := length_bytes finfo host.order
  rw [starts, length] at field
  have inside : offset + width ≤ 120 := by
    have whole := congrArg List.length field
    rw [slice, List.length_take, List.length_drop, length] at whole
    unfold FileHdr.bytes at all
    omega
  rw [← field]
  refine Eq.trans (bytesAt_congr width _ fun position before => ?_)
    (bytesAt_placed host.buffer offset width (hdr.bytes host.order) (by omega))
  rw [FileHdr.memory, if_pos (by omega)]
  rfl

theorem adhdrValues_memory (finfo : hdr.finfo.length = 32) :
    FieldsAt host.order (hdr.memory host) host.buffer (adhdrValues hdr) := by
  have macosx : adhMacosx.length = 16 := by decide
  intro value member
  simp only [adhdrValues, List.mem_cons, List.not_mem_nil, or_false] at member
  rcases member with rfl | rfl | rfl | rfl | rfl | rfl | rfl | rfl | rfl
  · exact memory_field finfo 0 (by simp [FileHdr.fields]) 0 4 (by decide) rfl
      (by simp [FileHdr.fields])
  · exact memory_field finfo 1 (by simp [FileHdr.fields]) 4 4 (by decide)
      (by simp [FileHdr.fields]) (by simp [FileHdr.fields])
  · exact memory_field finfo 3 (by simp [FileHdr.fields]) 24 2 (by decide)
      (by simp [FileHdr.fields, macosx]) (by simp [FileHdr.fields])
  · exact memory_field finfo 4 (by simp [FileHdr.fields]) 26 4 (by decide)
      (by simp [FileHdr.fields, macosx]) (by simp [FileHdr.fields])
  · exact memory_field finfo 5 (by simp [FileHdr.fields]) 30 4 (by decide)
      (by simp [FileHdr.fields, macosx]) (by simp [FileHdr.fields])
  · exact memory_field finfo 6 (by simp [FileHdr.fields]) 34 4 (by decide)
      (by simp [FileHdr.fields, macosx]) (by simp [FileHdr.fields])
  · exact memory_field finfo 7 (by simp [FileHdr.fields]) 38 4 (by decide)
      (by simp [FileHdr.fields, macosx]) (by simp [FileHdr.fields])
  · exact memory_field finfo 8 (by simp [FileHdr.fields]) 42 4 (by decide)
      (by simp [FileHdr.fields, macosx]) (by simp [FileHdr.fields])
  · exact memory_field finfo 9 (by simp [FileHdr.fields]) 46 4 (by decide)
      (by simp [FileHdr.fields, macosx]) (by simp [FileHdr.fields])

theorem attrhdrValues_memory (finfo : hdr.finfo.length = 32) :
    FieldsAt host.order (hdr.memory host) host.buffer (attrhdrValues hdr) := by
  have macosx : adhMacosx.length = 16 := by decide
  intro value member
  simp only [attrhdrValues, List.mem_cons, List.not_mem_nil, or_false] at member
  rcases member with rfl | rfl
  · exact memory_field finfo 12 (by simp [FileHdr.fields]) 84 4 (by decide)
      (by simp [FileHdr.fields, macosx, finfo]) (by simp [FileHdr.fields])
  · exact memory_field finfo 19 (by simp [FileHdr.fields]) 118 2 (by decide)
      (by simp [FileHdr.fields, macosx, finfo]) (by simp [FileHdr.fields])

theorem finfo_memory (finfo : hdr.finfo.length = 32) :
    bytesAt (hdr.memory host) (host.buffer + 50) 32 = hdr.finfo := by
  have macosx : adhMacosx.length = 16 := by decide
  exact memory_field finfo 10 (by simp [FileHdr.fields]) 50 32 (by decide)
    (by simp [FileHdr.fields, macosx]) (by simp [FileHdr.fields, finfo])

end Fields

end LegacySupport.Copyfile
