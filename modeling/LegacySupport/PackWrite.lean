import LegacySupport.PackPasses

/-!
The header on its way: it is turned to big-endian in its buffer and written, and turned back in
the buffer it is read into. Both ways its numbers, names and data stay what they are.
-/

namespace LegacySupport.Copyfile

open Bytes CInt CheckedMemory

variable {Exit Info : Type} {size : Nat}

/-- The byte order of a header after a host has swapped it. -/
def turned (host : Host size) (order : ByteOrder) : ByteOrder :=
  match host.order with
  | .big => order
  | .little => flipped order

theorem turned_big (host : Host size) : turned host .big = host.order := by
  unfold turned
  cases host.order with
  | little => rfl
  | big => rfl

theorem turned_order (host : Host size) : turned host host.order = .big := by
  unfold turned
  cases host.order with
  | little => rfl
  | big => rfl

/-- The AppleDouble part of a header, which the file has even without attributes. -/
structure AdhdrAt (order : ByteOrder) (memory : Memory) (base : Nat) (hdr : FileHdr) : Prop where
  fields : FieldsAt order memory base (adhdrValues hdr)
  finfo : bytesAt memory (base + 50) 32 = hdr.finfo

structure AttrhdrAt (order : ByteOrder) (memory : Memory) (base : Nat) (hdr : FileHdr)
    (names : List (List UInt8)) : Prop where
  fields : FieldsAt order memory base (attrhdrValues hdr)
  names : NamesAt memory (base + 120) names

structure Counted (hdr : FileHdr) (names : List (List UInt8)) : Prop where
  count : hdr.numAttrs = names.length
  few : names.length < 2 ^ 16
  named : Named names

theorem AdhdrAt.copied {order : ByteOrder} {memory other : Memory} {base otherBase : Nat}
    {hdr : FileHdr} (adhdr : AdhdrAt order memory base hdr)
    (same : ∀ index < 82, memory (base + index) = other (otherBase + index)) :
    AdhdrAt order other otherBase hdr := by
  constructor
  · exact adhdr.fields.copied (adhdrValues_inside hdr)
      fun index lower upper => same index (by omega)
  · rw [← adhdr.finfo]
    exact bytesAt_copied 50 32 fun index bound => same _ (by omega)

theorem AttrhdrAt.copied {order : ByteOrder} {memory other : Memory} {base otherBase limit : Nat}
    {hdr : FileHdr} {names : List (List UInt8)} (attrhdr : AttrhdrAt order memory base hdr names)
    (inside : entriesEnd 120 names ≤ limit)
    (same : ∀ index, 84 ≤ index → index < limit →
      memory (base + index) = other (otherBase + index)) :
    AttrhdrAt order other otherBase hdr names := by
  have ends := entriesEnd_le names 120
  constructor
  · exact attrhdr.fields.copied (attrhdrValues_inside hdr)
      fun index lower upper => same index lower (by omega)
  · exact namesAt_copied names 120
      (fun index lower upper => same index (by omega) (by omega)) attrhdr.names

section Swaps

variable {host : Host size} {region : Region} {order : ByteOrder} {memory : Memory} {hdr : FileHdr}

theorem adhdrInHostOrder_outside (host : Host size) (memory : Memory) (address : Nat)
    (outside : address < host.buffer ∨ host.buffer + 50 ≤ address) :
    adhdrInHostOrder host memory address = memory address := by
  unfold adhdrInHostOrder
  cases host.order with
  | big => rfl
  | little => exact adhdrFields_outside memory host.buffer address outside

theorem AdhdrAt.swapped (adhdr : AdhdrAt order memory host.buffer hdr) :
    AdhdrAt (turned host order) (adhdrInHostOrder host memory) host.buffer hdr := by
  constructor
  · unfold adhdrInHostOrder turned
    cases host.order with
    | big => exact adhdr.fields
    | little =>
        exact adhdr.fields.swapped (adhdrFields_ascending _) (adhdrValues_fields hdr _)
  · rw [← adhdr.finfo]
    exact bytesAt_congr _ _ fun index bound =>
      adhdrInHostOrder_outside host memory _ (by omega)

theorem magic_order (magic address : Nat)
    (asymmetric : decode .little (encode .big 4 magic) ≠ magic) (fits : magic < 256 ^ 4)
    (stored : bytesAt memory address 4 = encode order 4 magic) :
    (if numberAt .little 4 memory address = magic then ByteOrder.little else .big) = order := by
  rw [numberAt, stored]
  cases order with
  | little => rw [decode_encode fits, if_pos rfl]
  | big => rw [if_neg asymmetric]

theorem swapAdhdr_header (Exit : Type) (holds : Holds host region) (long : 84 - 2 ≤ region.size)
    (adhdr : AdhdrAt order memory host.buffer hdr) :
    swapAdhdr host region memory =
      (.next (adhdrInHostOrder host memory) : Outcome Exit Memory) := by
  apply swapAdhdr_inside holds memory long
  rw [holds.start]
  have magic := adhdr.fields (0, 4, adhMagic) (by simp [adhdrValues])
  have count := adhdr.fields.number 24 2 2 (by simp [adhdrValues]) (by decide)
  rw [magic_order adhMagic host.buffer (by decide) (by decide) magic]
  exact count

theorem swapCount_header {names : List (List UInt8)} (counted : Counted hdr names)
    (attrhdr : AttrhdrAt order memory host.buffer hdr names) :
    swapCount host.buffer memory = names.length := by
  have few := counted.few
  have magic := attrhdr.fields (84, 4, attrHdrMagic) (by simp [attrhdrValues])
  have count := attrhdr.fields.number 118 2 hdr.numAttrs (by simp [attrhdrValues])
    (by rw [counted.count]; exact few)
  rw [swapCount, magic_order attrHdrMagic (host.buffer + 84) (by decide) (by decide) magic, count,
    counted.count]

theorem entriesInside_names : ∀ names entry, Named names → NamesAt memory entry names →
    entriesEnd entry names ≤ region.finish →
      EntriesInside region memory names.length entry := by
  intro names
  induction names with
  | nil => exact fun entry short named inside => True.intro
  | cons name names ih =>
      intro entry short named inside
      have bounds := attrEntryLength_namelen name
      have ends := entriesEnd_le names (entry + attrEntryLength (namelen name))
      rw [entriesEnd] at inside
      refine ⟨by omega, ?_⟩
      rw [named.1.next (short name List.mem_cons_self).1]
      exact ih _ short.tail named.2 inside

theorem swapAttrhdr_header (Exit : Type) (holds : Holds host region) {names : List (List UInt8)}
    (counted : Counted hdr names) (inside : entriesEnd 120 names ≤ region.size)
    (attrhdr : AttrhdrAt order memory host.buffer hdr names) :
    swapAttrhdr host region memory =
      (.next (attrhdrInHostOrder host memory) : Outcome Exit Memory) := by
  have ends := entriesEnd_le names 120
  have finish : region.finish = region.start + region.size := rfl
  refine (swapAttrhdr_inside Exit holds memory (by omega)).1 fun little => ?_
  rw [swapCount_header counted attrhdr]
  refine entriesInside_names names _ counted.named attrhdr.names ?_
  rw [entriesEnd_add, finish, holds.start]
  omega

theorem AttrhdrAt.swapped {names : List (List UInt8)} (counted : Counted hdr names)
    (attrhdr : AttrhdrAt order memory host.buffer hdr names) :
    AttrhdrAt (turned host order) (attrhdrInHostOrder host memory) host.buffer hdr names := by
  have count := swapCount_header counted attrhdr
  unfold attrhdrInHostOrder turned
  rw [count]
  cases host.order with
  | big => exact attrhdr
  | little =>
      have same : ∀ address, host.buffer + 120 ≤ address →
          fieldsReversed memory (attrhdrFields host.buffer) address = memory address :=
        fun address behind => attrhdrFields_outside memory _ address (Or.inr behind)
      constructor
      · have swapped := attrhdr.fields.swapped (attrhdrFields_ascending host.buffer)
          (attrhdrValues_fields hdr host.buffer)
        refine swapped.copied (attrhdrValues_inside hdr) fun index lower upper => ?_
        exact (attrEntriesReversed_below _ _ _ _ (by omega)).symm
      · exact namesAt_swapped names _ _ counted.named
          (namesAt_congr names _ (fun address lower upper => (same address lower).symm)
            attrhdr.names)

theorem entriesAt_inHostOrder {limit offset : Nat} {attributes : Attributes}
    (counted : Counted hdr (attributes.map Prod.fst))
    (attrhdr : AttrhdrAt order memory host.buffer hdr (attributes.map Prod.fst))
    (before : entriesEnd 120 (attributes.map Prod.fst) ≤ offset)
    (inside : entriesEnd 120 (attributes.map Prod.fst) ≤ limit)
    (entries : EntriesAt order memory host.buffer limit (host.buffer + 120) offset attributes) :
    EntriesAt (turned host order) (attrhdrInHostOrder host memory) host.buffer limit
      (host.buffer + 120) offset attributes := by
  have count := swapCount_header counted attrhdr
  have ends := entriesEnd_le (attributes.map Prod.fst) 120
  rw [List.length_map] at count
  unfold attrhdrInHostOrder turned
  rw [count]
  cases host.order with
  | big => exact entries
  | little =>
      have turned' : EntriesAt order (fieldsReversed memory (attrhdrFields host.buffer))
          host.buffer limit (host.buffer + 120) offset attributes :=
        entriesAt_copied (Nat.le_refl limit) (fun index lower upper =>
          (attrhdrFields_outside memory _ _ (Or.inr (by omega))).symm) attributes 120 offset
          (Nat.le_refl 120) (by omega) inside entries
      exact entriesAt_swapped attributes 120 offset _ counted.named before inside turned'

end Swaps

end LegacySupport.Copyfile
