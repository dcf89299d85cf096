import LegacySupport.PackFile

/-!
`copyfile_unpack` on a file whose header has a table of names: what it sets on a target that has
no attributes.
-/

namespace LegacySupport.Copyfile

open Bytes CInt CheckedMemory

variable {Info : Type}

/-- The quarantine library: information that has been written as data is read from it again, and
the attribute that holds it has a name of its own. -/
structure Quarantine (Info : Type) where
  xattrName : List UInt8
  toData : Info → List UInt8
  ofData : List UInt8 → Option Info
  ofData_toData : ∀ info, ofData (toData info) = some info
  notFork : ¬ isForkName xattrName
  notSecurity : xattrName ≠ xattrSecurityName

def setAttribute (target : Attributes) (name value : List UInt8) : Attributes :=
  target.filter (fun attr => attr.1 ≠ name) ++ [(name, value)]

def targetSystem (library : Quarantine Info) : System Attributes Info where
  malloc _ _ := true
  readError _ _ _ := none
  flistxattr target := .ok (target.map Prod.fst)
  fremovexattr target name := target.filter fun attr => attr.1 ≠ name
  fsetxattr target name value := .ok (setAttribute target name value)
  qtnXattrName := library.xattrName
  qtnFileAlloc _ := true
  qtnFileInitWithData := library.ofData
  qtnFileApplyToFd target info := setAttribute target library.xattrName (library.toData info)
  setAcl target _ := (false, target)
  fstat _ := some false
  futimes target := target
  copyfileStat target := (0, target)

def unpacking (host : Host attrMaxHdrSize) (library : Quarantine Info) (file : List UInt8) :
    Unpacking Attributes Info :=
  ⟨host, targetSystem library, ⟨false, true, false⟩, none, file⟩

theorem unpacking_host (host : Host attrMaxHdrSize) (library : Quarantine Info)
    (file : List UInt8) : (unpacking host library file).host = host := rfl

theorem setAttribute_new (target : Attributes) (name value : List UInt8)
    (new : name ∉ target.map Prod.fst) : setAttribute target name value = target ++ [(name, value)] := by
  rw [setAttribute, List.filter_eq_self.mpr]
  intro attr member
  rw [decide_eq_true_eq]
  rintro rfl
  exact new (List.mem_map_of_mem member)

theorem mem_setAttribute {target : Attributes} {name value : List UInt8}
    {attr : List UInt8 × List UInt8} (member : attr ∈ setAttribute target name value) :
    attr ∈ target ∨ attr.1 = name := by
  rcases List.mem_append.mp member with old | new
  · exact Or.inl (List.mem_filter.mp old).1
  · rw [List.mem_singleton.mp new]
    exact Or.inr rfl

/-- What an entry with this attribute sets. Data that the library does not read set nothing. -/
def applied (library : Quarantine Info) (attr : List UInt8 × List UInt8) :
    Option (List UInt8 × List UInt8) :=
  if attr.1 = library.xattrName then
    (library.ofData attr.2).map fun info => (attr.1, library.toData info)
  else some attr

def applyTo (library : Quarantine Info) (target : Attributes) (attr : List UInt8 × List UInt8) :
    Attributes :=
  match applied library attr with
  | some set => setAttribute target set.1 set.2
  | none => target

theorem applied_name {library : Quarantine Info} {attr set : List UInt8 × List UInt8}
    (sets : applied library attr = some set) : set.1 = attr.1 := by
  unfold applied at sets
  split at sets
  · obtain ⟨info, -, same⟩ := Option.map_eq_some_iff.mp sets
    rw [← same]
  · rw [← Option.some.inj sets]

theorem applyTo_new (library : Quarantine Info) (target : Attributes)
    (attr : List UInt8 × List UInt8) (new : attr.1 ∉ target.map Prod.fst) :
    applyTo library target attr = target ++ (applied library attr).toList := by
  unfold applyTo
  cases sets : applied library attr with
  | none => exact (List.append_nil target).symm
  | some set =>
      have name := applied_name sets
      exact setAttribute_new target set.1 set.2 (by rw [name]; exact new)

/-! ## One entry -/

section Entry

variable {library : Quarantine Info} {host : Host attrMaxHdrSize} {file : List UInt8}
  {region : Region} {memory : Memory}

theorem extractAttribute_sets (attr : List UInt8 × List UInt8) (dataptr : Nat)
    (data : region.Holds dataptr attr.2.length)
    (bytes : bytesAt memory dataptr attr.2.length = attr.2) (state : State Attributes) :
    extractAttribute (unpacking host library file) region memory attr.1 dataptr attr.2.length state =
      .next { state with target := applyTo library state.target attr } := by
  unfold extractAttribute applyTo applied
  by_cases quarantine : attr.1 = (unpacking host library file).system.qtnXattrName
  · have given : (unpacking host library file).qinfo = none := rfl
    have granted : (unpacking host library file).system.qtnFileAlloc state.target = true := rfl
    have named : attr.1 = library.xattrName := quarantine
    have reads : (unpacking host library file).system.qtnFileInitWithData attr.2 =
        library.ofData attr.2 := rfl
    rw [if_pos quarantine, if_pos named, extractQuarantine, given]
    dsimp only
    rw [if_pos granted, loadBytes_inside data, bind_next, bytes, reads, named]
    cases library.ofData attr.2 with
    | none => rfl
    | some info => rfl
  · have other : ¬ attr.1 = library.xattrName := quarantine
    have noAcl : ¬ ((unpacking host library file).flags.acl = true ∧ attr.1 = xattrSecurityName) :=
      fun both => Bool.false_ne_true both.1
    have xattr : (unpacking host library file).flags.xattr = true := rfl
    rw [if_neg quarantine, if_neg other, if_neg noAcl, if_pos xattr, loadBytes_inside data,
      bind_next, bytes]
    rfl

theorem extractAttribute_names (name : List UInt8) (dataptr length : Nat)
    (data : region.Holds dataptr length) {state after : State Attributes}
    (extracts : extractAttribute (unpacking host library file) region memory name dataptr length
      state = .next after) :
    ∀ attr ∈ after.target, attr ∈ state.target ∨ attr.1 = name := by
  intro attr member
  unfold extractAttribute at extracts
  by_cases quarantine : name = (unpacking host library file).system.qtnXattrName
  · have given : (unpacking host library file).qinfo = none := rfl
    have granted : (unpacking host library file).system.qtnFileAlloc state.target = true := rfl
    rw [if_pos quarantine, extractQuarantine, given] at extracts
    dsimp only at extracts
    rw [if_pos granted, loadBytes_inside data, bind_next] at extracts
    split at extracts
    · cases extracts
      exact Or.inl member
    · cases extracts
      rw [quarantine]
      exact mem_setAttribute member
  · have noAcl : ¬ ((unpacking host library file).flags.acl = true ∧ name = xattrSecurityName) :=
      fun both => Bool.false_ne_true both.1
    have xattr : (unpacking host library file).flags.xattr = true := rfl
    rw [if_neg quarantine, if_neg noAcl, if_pos xattr, loadBytes_inside data, bind_next] at extracts
    cases extracts
    exact mem_setAttribute member

theorem stringAt_name {entry : Nat} {name : List UInt8} (named : NameAt memory entry name)
    (nonzero : ∀ byte ∈ name, byte ≠ 0) (inside : entry + 11 + namelen name ≤ region.finish) :
    stringAt memory (entry + 11) (region.finish - (entry + 11)) = some name := by
  unfold namelen at inside
  exact stringAt_bytesAt memory name (entry + 11) _ nonzero (by omega) named.bytes

variable (library host file) in
theorem extractEntry_names (holds : Holds host region) {entry : Nat} {name : List UInt8}
    (named : NameAt memory entry name) (nonzero : ∀ byte ∈ name, byte ≠ 0)
    (inside : entry + 11 + namelen name ≤ region.finish) {state after : State Attributes}
    (extracts : extractEntry (unpacking host library file) region memory entry state =
      .next after) :
    ∀ attr ∈ after.target, attr ∈ state.target ∨ attr.1 = name := by
  have string := stringAt_name named nonzero inside
  rcases extractEntry_cases (unpacking host library file) memory holds entry state with
    ⟨-, rejected⟩ | ⟨formed, found, read, extracted⟩
  · rw [rejected] at extracts
    cases extracts
  · rw [string] at read
    cases read
    rw [extracted] at extracts
    have data := formed.dataInside
    have finish : region.finish = region.start + region.size := rfl
    exact extractAttribute_names name _ _ ⟨by omega, by omega⟩ extracts

theorem nameAt_last {entry : Nat} {name : List UInt8} (named : NameAt memory entry name) :
    memory (entry + 11 + name.length) = 0 := by
  have bound : name.length < (bytesAt memory (entry + 11) (namelen name)).length := by
    rw [length_bytesAt]
    exact Nat.lt_succ_self _
  have read := getElem_bytesAt memory (namelen name) (entry + 11) name.length bound
  rw [← read]
  simp only [named.bytes, List.getElem_append_right (Nat.le_refl _), Nat.sub_self,
    List.getElem_cons_zero]

theorem entryNumbers {limit entry offset : Nat} {attr : List UInt8 × List UInt8}
    (entryAt : EntryAt host.order memory region.start limit entry offset attr)
    (small : offset + attr.2.length < 2 ^ 32) :
    entryLength host memory entry = attr.2.length ∧
      (entryOffset host memory entry = offset ∨
        (entryOffset host memory entry = 0 ∧ attr.2 = [])) := by
  constructor
  · rw [entryLength, numberAt, entryAt.length]
    exact decode_encode (by omega)
  · obtain ⟨start, meant, stored⟩ := entryAt.place
    rw [entryOffset, numberAt, stored]
    rcases meant with same | ⟨zero, empty⟩
    · rw [same]
      exact Or.inl (decode_encode (by omega))
    · rw [zero]
      exact Or.inr ⟨decode_encode (by decide), empty⟩

theorem wellFormed_entry {limit entry offset : Nat} {attr : List UInt8 × List UInt8}
    (entryAt : EntryAt host.order memory region.start limit entry offset attr)
    (behind : region.start ≤ entry) (short : namelen attr.1 ≤ xattrMaxnamelen + 1)
    (nonempty : attr.1 ≠ []) (table : entry + attrEntryLength (namelen attr.1) ≤ region.finish)
    (inside : offset + attr.2.length ≤ region.size) (small : offset + attr.2.length < 2 ^ 32) :
    WellFormed host region memory entry := by
  have bounds := attrEntryLength_namelen attr.1
  have length := entryAt.name.toNat short
  have positive := List.length_pos_of_ne_nil nonempty
  have whole : namelen attr.1 = attr.1.length + 1 := rfl
  obtain ⟨numbers, place⟩ := entryNumbers entryAt small
  constructor
  · exact behind
  · omega
  · omega
  · omega
  · omega
  · rw [length, whole]
    exact nameAt_last entryAt.name
  · rw [numbers]
    rcases place with same | ⟨zero, empty⟩
    · omega
    · omega

variable (library file) in
theorem extractEntry_restores (holds : Holds host region) {limit entry offset : Nat}
    {attr : List UInt8 × List UInt8}
    (entryAt : EntryAt host.order memory region.start limit entry offset attr)
    (nonzero : ∀ byte ∈ attr.1, byte ≠ 0)
    (table : entry + attrEntryLength (namelen attr.1) ≤ region.finish)
    (small : offset + attr.2.length < 2 ^ 32)
    (within : offset + attr.2.length ≤ region.size → offset + attr.2.length ≤ limit)
    (state : State Attributes) :
    (¬ WellFormed host region memory entry ∧
      extractEntry (unpacking host library file) region memory entry state =
        .exit (-1, { state with err := einval })) ∨
    extractEntry (unpacking host library file) region memory entry state =
      .next { state with target := applyTo library state.target attr } := by
  have bounds := attrEntryLength_namelen attr.1
  have finish : region.finish = region.start + region.size := rfl
  have string := @stringAt_name region memory entry attr.1 entryAt.name nonzero (by omega)
  rcases extractEntry_cases (unpacking host library file) memory holds entry state with
    rejected | ⟨formed, found, read, extracted⟩
  · exact Or.inl rejected
  · right
    rw [string] at read
    cases read
    obtain ⟨numbers, place⟩ := entryNumbers entryAt small
    have data := formed.dataInside
    rw [extracted]
    change extractAttribute (unpacking host library file) region memory attr.1
      (region.start + entryOffset host memory entry) (entryLength host memory entry) state = _
    change entryOffset host memory entry + entryLength host memory entry ≤ region.size at data
    rw [numbers] at data ⊢
    refine extractAttribute_sets attr _ ⟨by omega, by omega⟩ ?_ state
    rcases place with same | ⟨zero, empty⟩
    · rw [same] at data ⊢
      exact entryAt.data (within data)
    · rw [empty]
      rfl

end Entry

/-! ## The table -/

section Table

variable {library : Quarantine Info} {host : Host attrMaxHdrSize} {file : List UInt8}
  {region : Region} {memory : Memory}

theorem extractEntries_step (holds : Holds host region) {entry : Nat} {name : List UInt8}
    (named : NameAt memory entry name) (short : namelen name ≤ xattrMaxnamelen + 1)
    (behind : region.start ≤ entry)
    (inside : entry + attrEntryLength (namelen name) ≤ region.finish) (count : Nat)
    (state : State Attributes) :
    extractEntries (unpacking host library file) region memory (count + 1) entry state =
      extractEntry (unpacking host library file) region memory entry state >>= fun after =>
        extractEntries (unpacking host library file) region memory count
          (entry + attrEntryLength (namelen name)) after := by
  have bounds := attrEntryLength_namelen name
  have next : (unpacking host library file).host.advance entry (attrEntryLength (namelen name)) =
      entry + attrEntryLength (namelen name) := holds.advance _ _ (by omega)
  rw [extractEntries]
  congr 1
  funext after
  rw [load_inside ⟨by omega, by omega⟩, bind_next, numberAt_byte, named.toNat short, next]

variable (library file) in
theorem extractEntries_names (holds : Holds host region) : ∀ names entry state after,
    Named names → NamesAt memory entry names → region.start ≤ entry →
      entriesEnd entry names ≤ region.finish →
        extractEntries (unpacking host library file) region memory names.length entry state =
          .next after →
            ∀ attr ∈ after.target, attr ∈ state.target ∨ attr.1 ∈ names := by
  intro names
  induction names with
  | nil =>
      intro entry state after named table behind inside extracts attr member
      cases extracts
      exact Or.inl member
  | cons name names ih =>
      intro entry state after named table behind inside extracts attr member
      have bounds := attrEntryLength_namelen name
      have ends := entriesEnd_le names (entry + attrEntryLength (namelen name))
      obtain ⟨short, nonzero⟩ := named name List.mem_cons_self
      rw [entriesEnd] at inside
      rw [List.length_cons, extractEntries_step holds table.1 short behind (by omega)] at extracts
      cases first : extractEntry (unpacking host library file) region memory entry state with
      | exit left =>
          rw [first, bind_exit] at extracts
          cases extracts
      | fault access =>
          rw [first, bind_fault] at extracts
          cases extracts
      | next next =>
          rw [first, bind_next] at extracts
          have earlier := extractEntry_names library host file holds table.1 nonzero (by omega) first
          have rest : Named names := fun other inside =>
            named other (List.mem_cons_of_mem _ inside)
          rcases ih _ next after rest table.2 (by omega) inside extracts attr member with
            old | new
          · rcases earlier attr old with before | same
            · exact Or.inl before
            · rw [same]
              exact Or.inr List.mem_cons_self
          · exact Or.inr (List.mem_cons_of_mem _ new)

def Reached (region : Region) (limit finish : Nat) : Prop :=
  ∀ place ≤ finish, place ≤ region.size → place ≤ limit

theorem totalLength_cons (attr : List UInt8 × List UInt8) (attributes : Attributes) :
    totalLength (attr :: attributes) = attr.2.length + totalLength attributes := by
  rw [totalLength, List.map_cons, List.sum_cons]
  rfl

/-- A table that is gone through to its end has set what its entries set, in their order. -/
theorem extractEntries_restores (holds : Holds host region) {limit : Nat} :
    ∀ attributes entry offset state, Named (attributes.map Prod.fst) →
      (attributes.map Prod.fst).Nodup →
        EntriesAt host.order memory region.start limit entry offset attributes →
          region.start ≤ entry → entriesEnd entry (attributes.map Prod.fst) ≤ region.finish →
            offset + totalLength attributes < 2 ^ 32 →
              Reached region limit (offset + totalLength attributes) →
                (∀ attr ∈ state.target, attr.1 ∉ attributes.map Prod.fst) →
      (∀ after, extractEntries (unpacking host library file) region memory attributes.length entry
          state = .next after →
            after = { state with target := state.target ++ attributes.filterMap (applied library) }) ∧
        ((∀ attr ∈ attributes, attr.1 ≠ []) → offset + totalLength attributes ≤ region.size →
          extractEntries (unpacking host library file) region memory attributes.length entry state =
            .next { state with
              target := state.target ++ attributes.filterMap (applied library) }) := by
  intro attributes
  induction attributes with
  | nil =>
      intro entry offset state named distinct entries behind inside small reached fresh
      have none : state = { state with
          target := state.target ++ ([] : Attributes).filterMap (applied library) } := by
        rw [List.filterMap_nil, List.append_nil]
      refine ⟨fun after extracts => ?_, fun nonempty fits => congrArg Outcome.next none⟩
      cases extracts
      exact none
  | cons attr attributes ih =>
      intro entry offset state named distinct entries behind inside small reached fresh
      have bounds := attrEntryLength_namelen attr.1
      have ends := entriesEnd_le (attributes.map Prod.fst)
        (entry + attrEntryLength (namelen attr.1))
      obtain ⟨short, nonzero⟩ := named attr.1 List.mem_cons_self
      obtain ⟨other, distinct⟩ := List.nodup_cons.mp distinct
      rw [totalLength_cons, ← Nat.add_assoc] at small reached ⊢
      rw [List.map_cons, entriesEnd] at inside
      have new : attr.1 ∉ state.target.map Prod.fst := by
        intro member
        obtain ⟨old, held, same⟩ := List.mem_map.mp member
        exact fresh old held (by rw [same]; exact List.mem_cons_self)
      have sets := applyTo_new library state.target attr new
      have freshRest : ∀ old ∈ state.target ++ (applied library attr).toList,
          old.1 ∉ attributes.map Prod.fst := by
        intro old member
        rcases List.mem_append.mp member with held | here
        · exact fun inside => fresh old held (List.mem_cons_of_mem _ inside)
        · rw [applied_name (Option.mem_toList.mp here)]
          exact other
      obtain ⟨partly, wholly⟩ := ih (entry + attrEntryLength (namelen attr.1))
        (offset + attr.2.length)
        { state with target := state.target ++ (applied library attr).toList } named.tail distinct
        entries.2 (by omega) inside small reached freshRest
      have joined : (state.target ++ (applied library attr).toList) ++
          attributes.filterMap (applied library) =
            state.target ++ (attr :: attributes).filterMap (applied library) := by
        rw [List.append_assoc, List.filterMap_cons]
        cases applied library attr with
        | none => rfl
        | some set => rfl
      dsimp only at partly wholly
      rw [joined] at partly wholly
      have step := @extractEntries_step Info library host file region memory holds entry attr.1
        entries.1.name short behind (by omega) attributes.length state
      rw [List.length_cons, step]
      rcases extractEntry_restores library file holds entries.1 nonzero (by omega) (by omega)
        (fun fits => reached _ (Nat.le_add_right _ _) fits) state with
        ⟨malformed, rejected⟩ | restored
      · rw [rejected, bind_exit]
        refine ⟨fun after extracts => ?_, fun nonempty fits => absurd ?_ malformed⟩
        · cases extracts
        · exact wellFormed_entry entries.1 behind short (nonempty attr List.mem_cons_self) (by omega)
            (by omega) (by omega)
      · rw [restored, bind_next, sets]
        exact ⟨partly, fun nonempty fits => wholly (fun later member =>
          nonempty later (List.mem_cons_of_mem _ member)) fits⟩

end Table

/-! ## The header that is read -/

section Header

variable {host : Host attrMaxHdrSize} {packer : Host attrMaxSize} {library : Quarantine Info}
  {hdr : FileHdr} {file rest : List UInt8} {names : List (List UInt8)}

theorem hdrsize_eq (file : List UInt8) : hdrsize file = min file.length attrMaxHdrSize := by
  unfold hdrsize
  split
  · omega
  · omega

theorem headerMemory_written (written : file = writtenBytes packer hdr ++ rest) (index : Nat)
    (before : index < hdr.rsrcOffset) (inside : index < hdrsize file) :
    writtenMemory packer hdr (packer.buffer + index) =
      headerMemory host file (host.buffer + index) := by
  have bound : index < (writtenBytes packer hdr).length := by
    rw [length_writtenBytes]
    exact before
  have read : (slice file 0 (hdrsize file))[index]? = some (writtenBytes packer hdr)[index] := by
    rw [getElem?_slice inside, Nat.zero_add, written, List.getElem?_append_left bound,
      List.getElem?_eq_getElem bound]
  rw [headerMemory, placed, Nat.add_sub_cancel_left, List.getD_eq_getElem?_getD, read,
    Option.getD_some]
  exact (getElem_bytesAt _ _ _ _ bound).symm

theorem hdrsize_laid (laid : Laid names hdr) (written : file = writtenBytes packer hdr ++ rest) :
    82 ≤ hdrsize file ∧
      (finderinfosize < hdr.finderLength → entriesEnd 120 names ≤ hdrsize file) ∧
      hdr.rsrcOffset ≤ file.length := by
  have long := laid.long
  have inside := laid.tabled.inside
  have whole : hdr.rsrcOffset ≤ file.length := by
    rw [written, List.length_append, length_writtenBytes]
    exact Nat.le_add_right _ _
  rw [hdrsize_eq]
  refine ⟨?_, fun attributes => ?_, whole⟩
  · unfold attrMaxHdrSize
    omega
  · have table := laid.table attributes
    omega

theorem adhdrAt_read (laid : Laid names hdr) (written : file = writtenBytes packer hdr ++ rest) :
    AdhdrAt .big (headerMemory host file) host.buffer hdr := by
  obtain ⟨size, -, -⟩ := hdrsize_laid laid written
  have long := laid.long
  exact (@adhdrAt_written packer hdr names laid.tabled).copied fun index bound =>
    headerMemory_written written index (by omega) (by omega)

theorem attrhdrAt_read (laid : Laid names hdr) (written : file = writtenBytes packer hdr ++ rest)
    (attributes : finderinfosize < hdr.finderLength) :
    AttrhdrAt .big (adhdrInHostOrder host (headerMemory host file)) host.buffer hdr names := by
  obtain ⟨-, size, -⟩ := hdrsize_laid laid written
  have inside := size attributes
  have table := laid.table attributes
  refine (@attrhdrAt_written packer hdr names laid.tabled).copied (Nat.le_refl _)
    fun index lower upper => ?_
  rw [adhdrInHostOrder_outside host _ _ (by omega)]
  exact headerMemory_written written index (by omega) (by omega)

theorem entriesAt_read {attributes : Attributes} {before offset : Nat}
    (laid : Laid (attributes.map Prod.fst) hdr) (written : file = writtenBytes packer hdr ++ rest)
    (some' : finderinfosize < hdr.finderLength)
    (behind : entriesEnd 120 (attributes.map Prod.fst) ≤ offset)
    (inside : entriesEnd 120 (attributes.map Prod.fst) ≤ before)
    (shorter : min hdr.rsrcOffset (hdrsize file) ≤ before)
    (entries : EntriesAt packer.order hdr.area 0 before 120 offset attributes) :
    EntriesAt host.order
      (attrhdrInHostOrder host (adhdrInHostOrder host (headerMemory host file))) host.buffer
      (min hdr.rsrcOffset (hdrsize file)) (host.buffer + 120) offset attributes := by
  obtain ⟨-, size, -⟩ := hdrsize_laid laid written
  have room := size some'
  have table := laid.table some'
  have ends := entriesEnd_le (attributes.map Prod.fst) 120
  have packed := entriesAt_written laid.tabled behind inside entries
  have same : ∀ index, 120 ≤ index → index < min hdr.rsrcOffset (hdrsize file) →
      writtenMemory packer hdr (packer.buffer + index) =
        adhdrInHostOrder host (headerMemory host file) (host.buffer + index) := by
    intro index lower upper
    rw [adhdrInHostOrder_outside host _ _ (by omega)]
    exact headerMemory_written written index (by omega) (by omega)
  have read := entriesAt_copied shorter same attributes 120 offset (Nat.le_refl 120) (by omega)
    (by omega) packed
  have swapped := entriesAt_inHostOrder laid.tabled.counted (attrhdrAt_read laid written some')
    behind (by omega) read
  rw [turned_big] at swapped
  exact swapped

theorem appleDouble_read (laid : Laid names hdr)
    (written : file = writtenBytes packer hdr ++ rest) :
    AppleDouble (headerRegion host file) (headerMemory host file) := by
  have adhdr := @adhdrAt_read host packer hdr file rest names laid written
  constructor
  · exact (hdrsize_laid laid written).1
  · exact adhdr.fields.number 0 4 adhMagic (by simp [adhdrValues]) (by decide)
  · exact adhdr.fields.number 4 4 adhVersion (by simp [adhdrValues]) (by decide)
  · exact adhdr.fields.number 24 2 2 (by simp [adhdrValues]) (by decide)
  · exact adhdr.fields.number 26 4 adFinderinfo (by simp [adhdrValues]) (by decide)

theorem copyfileUnpack_reads : copyfileUnpack (unpacking host library file) ⟨[], 0⟩ =
    unpackHeader (unpacking host library file) (headerRegion host file) (headerMemory host file)
      ⟨[], 0⟩ := by
  have whole : ¬ (slice file 0 (hdrsize file)).length < (headerRegion host file).size := by
    rw [hdrsize_read]
    exact Nat.lt_irrefl _
  exact if_neg whole

theorem copyfileUnpack_header (laid : Laid names hdr)
    (written : file = writtenBytes packer hdr ++ rest) :
    copyfileUnpack (unpacking host library file) ⟨[], 0⟩ =
      extractAttributes (unpacking host library file) (headerRegion host file)
          (adhdrInHostOrder host (headerMemory host file)) ⟨[], 0⟩ >>= fun found =>
        extractFinderInfo (unpacking host library file) (headerRegion host file) found.1 found.2 >>=
          extractResourceFork (unpacking host library file) (headerRegion host file) found.1 := by
  obtain ⟨size, -, -⟩ := hdrsize_laid laid written
  have header := @appleDouble_read host packer hdr file rest names laid written
  have swapped := swapAdhdr_header (Int × State Attributes) (headerRegion_holds host file) size
    (@adhdrAt_read host packer hdr file rest names laid written)
  have removed : removeAttributes (unpacking host library file) ⟨[], 0⟩ = .next ⟨[], 0⟩ := rfl
  have noStat : ¬ (unpacking host library file).flags.stat = true := Bool.false_ne_true
  rw [copyfileUnpack_reads]
  unfold unpackHeader
  rcases checkHeader_cases (headerRegion host file) (headerMemory host file)
    (⟨[], 0⟩ : State Attributes) with ⟨invalid, -⟩ | ⟨-, passed⟩
  · exact absurd header invalid
  · rw [passed, bind_next, unpacking_host, swapped, bind_next, removed, bind_next]
    congr 1
    funext found
    dsimp only
    congr 1
    funext after
    simp only [if_neg noStat]
    cases extractResourceFork (unpacking host library file) (headerRegion host file) found.1 after with
    | next last => rfl
    | exit left => rfl
    | fault access => rfl

def withFinderInfo (hdr : FileHdr) (state : State Attributes) : State Attributes :=
  if hdr.finfo = emptyfinfo then state
  else { state with target := setAttribute state.target xattrFinderinfoName hdr.finfo }

theorem extractFinderInfo_header {memory : Memory} (size : 82 ≤ hdrsize file)
    (adhdr : AdhdrAt host.order memory host.buffer hdr) (state : State Attributes) :
    extractFinderInfo (unpacking host library file) (headerRegion host file) memory state =
      .next (withFinderInfo hdr state) := by
  have holds := headerRegion_holds host file
  have start : (headerRegion host file).start = host.buffer := rfl
  have finish : (headerRegion host file).finish = host.buffer + hdrsize file := rfl
  have offset : numberAt host.order 4 memory (host.buffer + 30) = 50 :=
    adhdr.fields.number 30 4 50 (by simp [adhdrValues]) (by decide)
  have room : host.abi.sizeT (((headerRegion host file).size : Int) - 32) = hdrsize file - 32 := by
    have same : ((headerRegion host file).size : Int) - 32 = ((hdrsize file - 32 : Nat) : Int) := by
      change ((hdrsize file : Nat) : Int) - 32 = _
      omega
    have bound := holds.fits
    change hdrsize file ≤ attrMaxHdrSize at bound
    unfold attrMaxHdrSize at bound
    rw [same]
    apply sizeT_of_lt
    cases host.abi with
    | ilp32 =>
        rw [sizeMod_ilp32]
        omega
    | lp64 =>
        rw [sizeMod_lp64]
        omega
  have place : host.advance host.buffer 50 = host.buffer + 50 :=
    holds.advance _ _ (by omega)
  unfold extractFinderInfo withFinderInfo
  rw [start, unpacking_host, load_inside ⟨by omega, by omega⟩, bind_next, offset, room,
    if_neg (by omega), place, loadBytes_inside ⟨by omega, by omega⟩, bind_next, adhdr.finfo]
  by_cases empty : hdr.finfo = emptyfinfo
  · rw [if_neg (not_not.mpr empty), if_pos empty]
  · rw [if_pos empty, if_neg empty]
    rfl

def withResourceFork (data : List UInt8) (state : State Attributes) : State Attributes :=
  if data = [] then state
  else { state with target := setAttribute state.target xattrResourceforkName data }

theorem extractResourceFork_header {memory : Memory} {data : List UInt8} (size : 82 ≤ hdrsize file)
    (adhdr : AdhdrAt host.order memory host.buffer hdr) (small : data.length < 2 ^ 32)
    (offset : hdr.rsrcOffset < 2 ^ 32) (length : hdr.rsrcLength = data.length)
    (written : file = writtenBytes packer hdr ++ data) (state : State Attributes) :
    extractResourceFork (unpacking host library file) (headerRegion host file) memory state =
      .next (0, withResourceFork data state) := by
  have start : (headerRegion host file).start = host.buffer := rfl
  have finish : (headerRegion host file).finish = host.buffer + hdrsize file := rfl
  have type : numberAt host.order 4 memory (host.buffer + 38) = adResource :=
    adhdr.fields.number 38 4 adResource (by simp [adhdrValues]) (by decide)
  have count : numberAt host.order 4 memory (host.buffer + 46) = data.length := by
    rw [← length]
    exact adhdr.fields.number 46 4 hdr.rsrcLength (by simp [adhdrValues]) (by omega)
  have place : numberAt host.order 4 memory (host.buffer + 42) = hdr.rsrcOffset :=
    adhdr.fields.number 42 4 hdr.rsrcOffset (by simp [adhdrValues]) (by omega)
  unfold extractResourceFork withResourceFork
  rw [start, unpacking_host, load_inside ⟨by omega, by omega⟩, bind_next,
    load_inside ⟨by omega, by omega⟩, bind_next, type, count]
  by_cases empty : data = []
  · rw [empty, if_neg (by simp), if_pos rfl]
    rfl
  · have positive := List.length_pos_of_ne_nil empty
    have read : slice file hdr.rsrcOffset data.length = data := by
      have whole := slice_append (writtenBytes packer hdr) data []
      rw [List.append_nil, length_writtenBytes, ← written] at whole
      exact whole
    have granted : (unpacking host library file).system.malloc state.target data.length = true := rfl
    have stats : (unpacking host library file).system.fstat state.target = some false := rfl
    have reads : pread (unpacking host library file).system state.target
        (unpacking host library file).file data.length hdr.rsrcOffset = .ok data :=
      congrArg Except.ok read
    have noStat : ¬ (unpacking host library file).flags.stat = true := Bool.false_ne_true
    have sets : (unpacking host library file).system.fsetxattr state.target xattrResourceforkName
        data = .ok (setAttribute state.target xattrResourceforkName data) := rfl
    rw [if_pos ⟨rfl, positive⟩, load_inside ⟨by omega, by omega⟩, bind_next, place, if_neg empty,
      writeResourceFork, if_neg (not_not.mpr granted), stats]
    dsimp only
    rw [reads]
    dsimp only
    rw [if_neg (Nat.lt_irrefl _), sets]
    dsimp only
    rw [if_neg noStat]
    rfl

theorem extractResourceFork_names {memory : Memory} (size : 82 ≤ hdrsize file) {state : State Attributes}
    {result : Int × State Attributes}
    (extracts : extractResourceFork (unpacking host library file) (headerRegion host file) memory
      state = .next result) :
    ∀ attr ∈ result.2.target, attr ∈ state.target ∨ attr.1 = xattrResourceforkName := by
  have writes : ∀ length offset, ∀ attr ∈ (writeResourceFork (unpacking host library file) length
      offset state).2.target, attr ∈ state.target ∨ attr.1 = xattrResourceforkName := by
    intro length offset attr member
    have granted : (unpacking host library file).system.malloc state.target length = true := rfl
    have stats : (unpacking host library file).system.fstat state.target = some false := rfl
    have reads : pread (unpacking host library file).system state.target
        (unpacking host library file).file length offset = .ok (slice file offset length) := rfl
    have sets : (unpacking host library file).system.fsetxattr state.target xattrResourceforkName
        (slice file offset length) =
          .ok (setAttribute state.target xattrResourceforkName (slice file offset length)) := rfl
    rw [writeResourceFork, if_neg (not_not.mpr granted), stats] at member
    dsimp only at member
    rw [reads] at member
    dsimp only at member
    split at member
    · exact Or.inl member
    · rw [sets] at member
      exact mem_setAttribute member
  intro attr member
  have finish : (headerRegion host file).finish = (headerRegion host file).start + hdrsize file := rfl
  unfold extractResourceFork at extracts
  rw [load_inside ⟨by omega, by omega⟩, bind_next, load_inside ⟨by omega, by omega⟩,
    bind_next] at extracts
  split at extracts
  · rw [load_inside ⟨by omega, by omega⟩, bind_next] at extracts
    cases extracts
    exact writes _ _ attr member
  · cases extracts
    exact Or.inl member

theorem extractAttributes_without {memory : Memory} (size : 82 ≤ hdrsize file)
    (adhdr : AdhdrAt host.order memory host.buffer hdr) (finder : hdr.finderLength ≤ finderinfosize)
    (state : State Attributes) :
    extractAttributes (unpacking host library file) (headerRegion host file) memory state =
      .next (memory, state) := by
  have start : (headerRegion host file).start = host.buffer := rfl
  have finish : (headerRegion host file).finish = host.buffer + hdrsize file := rfl
  have length : numberAt host.order 4 memory (host.buffer + 34) = hdr.finderLength :=
    adhdr.fields.number 34 4 hdr.finderLength (by simp [adhdrValues])
      (by unfold finderinfosize at finder; omega)
  unfold extractAttributes
  rw [start, unpacking_host, load_inside ⟨by omega, by omega⟩, bind_next, length,
    if_neg (by omega)]
  rfl

theorem extractAttributes_table (laid : Laid names hdr)
    (written : file = writtenBytes packer hdr ++ rest)
    (some' : finderinfosize < hdr.finderLength)
    (adhdr : AdhdrAt host.order (adhdrInHostOrder host (headerMemory host file)) host.buffer hdr)
    (state : State Attributes) :
    extractAttributes (unpacking host library file) (headerRegion host file)
        (adhdrInHostOrder host (headerMemory host file)) state =
      extractEntries (unpacking host library file) (headerRegion host file)
          (attrhdrInHostOrder host (adhdrInHostOrder host (headerMemory host file)))
          names.length (host.buffer + 120) state >>= fun after =>
        .next (attrhdrInHostOrder host (adhdrInHostOrder host (headerMemory host file)), after) := by
  obtain ⟨-, room, -⟩ := hdrsize_laid laid written
  have size := room some'
  have ends := entriesEnd_le names 120
  have holds := headerRegion_holds host file
  have start : (headerRegion host file).start = host.buffer := rfl
  have finish : (headerRegion host file).finish = host.buffer + hdrsize file := rfl
  have whole : ¬ (headerRegion host file).size < 120 := by
    change ¬ hdrsize file < 120
    omega
  have attrhdr := @attrhdrAt_read host packer hdr file rest names laid written some'
  have swapped := swapAttrhdr_header (Int × State Attributes) holds laid.tabled.counted size attrhdr
  have inOrder := attrhdr.swapped laid.tabled.counted
  rw [turned_big] at inOrder
  have few := laid.tabled.counted.few
  have counted := laid.tabled.counted.count
  have length : numberAt host.order 4 (adhdrInHostOrder host (headerMemory host file))
      (host.buffer + 34) = hdr.finderLength :=
    adhdr.fields.number 34 4 hdr.finderLength (by simp [adhdrValues]) laid.finder
  have magic := inOrder.fields.number 84 4 attrHdrMagic (by simp [attrhdrValues]) (by decide)
  have count := inOrder.fields.number 118 2 hdr.numAttrs (by simp [attrhdrValues])
    (by rw [counted]; exact few)
  unfold extractAttributes
  rw [start, unpacking_host, load_inside ⟨by omega, by omega⟩, bind_next, length, if_pos some',
    if_neg whole, swapped, bind_next, load_inside ⟨by omega, by omega⟩, bind_next, magic,
    if_neg (not_not.mpr rfl), load_inside ⟨by omega, by omega⟩, bind_next, count, counted]
  rfl

theorem adhdrAt_swapped (laid : Laid names hdr)
    (written : file = writtenBytes packer hdr ++ rest) :
    AdhdrAt host.order (adhdrInHostOrder host (headerMemory host file)) host.buffer hdr ∧
      AdhdrAt host.order
        (attrhdrInHostOrder host (adhdrInHostOrder host (headerMemory host file))) host.buffer
          hdr := by
  have swapped := (@adhdrAt_read host packer hdr file rest names laid written).swapped
  rw [turned_big] at swapped
  exact ⟨swapped, swapped.copied fun index bound =>
    (attrhdrInHostOrder_below host _ _ (by omega)).symm⟩

variable (library host) in
theorem copyfileUnpack_names (laid : Laid names hdr)
    (written : file = writtenBytes packer hdr ++ rest) {result : Int × State Attributes}
    (unpacks : copyfileUnpack (unpacking host library file) ⟨[], 0⟩ = .next result) :
    ∀ attr ∈ result.2.target, attr.1 ∈ names ∨ isForkName attr.1 := by
  obtain ⟨size, room, -⟩ := hdrsize_laid laid written
  obtain ⟨adhdr, adhdrBehind⟩ := @adhdrAt_swapped host packer hdr file rest names laid written
  have last : ∀ memory state, AdhdrAt host.order memory host.buffer hdr →
      (∀ attr ∈ state.target, attr.1 ∈ names ∨ isForkName attr.1) →
      (extractFinderInfo (unpacking host library file) (headerRegion host file) memory state >>=
        extractResourceFork (unpacking host library file) (headerRegion host file) memory) =
          .next result →
      ∀ attr ∈ result.2.target, attr.1 ∈ names ∨ isForkName attr.1 := by
    intro memory state header before extracts attr member
    rw [extractFinderInfo_header size header, bind_next] at extracts
    rcases extractResourceFork_names size extracts attr member with old | fork
    · unfold withFinderInfo at old
      split at old
      · exact before attr old
      · rcases mem_setAttribute old with older | finder
        · exact before attr older
        · exact Or.inr (Or.inl finder)
    · exact Or.inr (Or.inr fork)
  rw [copyfileUnpack_header laid written] at unpacks
  by_cases finder : hdr.finderLength ≤ finderinfosize
  · rw [extractAttributes_without size adhdr finder, bind_next] at unpacks
    exact last _ _ adhdr (fun attr member => by cases member) unpacks
  · have some' : finderinfosize < hdr.finderLength := by omega
    rw [extractAttributes_table laid written some' adhdr] at unpacks
    cases extracts : extractEntries (unpacking host library file) (headerRegion host file)
        (attrhdrInHostOrder host (adhdrInHostOrder host (headerMemory host file)))
        names.length (host.buffer + 120) ⟨[], 0⟩ with
    | exit left =>
        rw [extracts, bind_exit, bind_exit] at unpacks
        cases unpacks
    | fault access =>
        rw [extracts, bind_fault, bind_fault] at unpacks
        cases unpacks
    | next after =>
        rw [extracts, bind_next, bind_next] at unpacks
        refine last _ after adhdrBehind (fun attr member => ?_) unpacks
        have attrhdr := @attrhdrAt_read host packer hdr file rest names laid written some'
        have table := attrhdr.swapped laid.tabled.counted
        have inside : entriesEnd (host.buffer + 120) names ≤ (headerRegion host file).finish := by
          rw [entriesEnd_add]
          exact Nat.add_le_add_left (room some') _
        rcases extractEntries_names library file (headerRegion_holds host file) names _ _ after
          laid.tabled.counted.named table.names (Nat.le_add_right _ _) inside extracts attr member
          with old | here
        · cases old
        · exact Or.inl here

def restored (hdr : FileHdr) (attributes : Attributes) (data : List UInt8) : State Attributes :=
  withResourceFork data (withFinderInfo hdr ⟨attributes, 0⟩)

theorem copyfileUnpack_without (laid : Laid names hdr) {data : List UInt8}
    (written : file = writtenBytes packer hdr ++ data) (finder : hdr.finderLength ≤ finderinfosize)
    (small : data.length < 2 ^ 32) (offset : hdr.rsrcOffset < 2 ^ 32)
    (length : hdr.rsrcLength = data.length) :
    copyfileUnpack (unpacking host library file) ⟨[], 0⟩ = .next (0, restored hdr [] data) := by
  obtain ⟨size, -, -⟩ := hdrsize_laid laid written
  obtain ⟨adhdr, -⟩ := @adhdrAt_swapped host packer hdr file data names laid written
  rw [copyfileUnpack_header laid written, extractAttributes_without size adhdr finder, bind_next,
    extractFinderInfo_header size adhdr, bind_next,
    extractResourceFork_header size adhdr small offset length written]
  rfl

/-- A file with a table gives the target the attributes of the table, if it is gone through to its
end, and it is if the data end in what is read. -/
theorem copyfileUnpack_restores {attributes : Attributes} {data : List UInt8} {before : Nat}
    (laid : Laid (attributes.map Prod.fst) hdr) (written : file = writtenBytes packer hdr ++ data)
    (some' : finderinfosize < hdr.finderLength) (small : data.length < 2 ^ 32)
    (place : hdr.rsrcOffset = entriesEnd 120 (attributes.map Prod.fst) + totalLength attributes)
    (offset : hdr.rsrcOffset ≤ before) (bound : before < 2 ^ 32)
    (length : hdr.rsrcLength = data.length)
    (entries : EntriesAt packer.order hdr.area 0 before 120
      (entriesEnd 120 (attributes.map Prod.fst)) attributes)
    (distinct : (attributes.map Prod.fst).Nodup) :
    (∀ result, copyfileUnpack (unpacking host library file) ⟨[], 0⟩ = .next result →
      result = (0, restored hdr (attributes.filterMap (applied library)) data)) ∧
    ((∀ attr ∈ attributes, attr.1 ≠ []) → hdr.rsrcOffset ≤ attrMaxHdrSize →
      copyfileUnpack (unpacking host library file) ⟨[], 0⟩ =
        .next (0, restored hdr (attributes.filterMap (applied library)) data)) := by
  obtain ⟨size, room, whole⟩ := hdrsize_laid laid written
  obtain ⟨adhdr, adhdrBehind⟩ := @adhdrAt_swapped host packer hdr file data _ laid written
  have read := @entriesAt_read host packer hdr file data attributes before _ laid written some'
    (Nat.le_refl _) (by omega) (by omega) entries
  have inside : entriesEnd (host.buffer + 120) (attributes.map Prod.fst) ≤
      (headerRegion host file).finish := by
    rw [entriesEnd_add]
    exact Nat.add_le_add_left (room some') _
  have reached : Reached (headerRegion host file) (min hdr.rsrcOffset (hdrsize file))
      (entriesEnd 120 (attributes.map Prod.fst) + totalLength attributes) := by
    intro here behind fits
    change here ≤ hdrsize file at fits
    omega
  obtain ⟨partly, wholly⟩ := @extractEntries_restores Info library host file _ _
    (headerRegion_holds host file) _ attributes (host.buffer + 120) _ (⟨[], 0⟩ : State Attributes)
    laid.tabled.counted.named distinct read (Nat.le_add_right _ _) inside (by omega)
    reached (fun attr member => by cases member)
  have last : ∀ after : State Attributes, after = ⟨attributes.filterMap (applied library), 0⟩ →
      (extractFinderInfo (unpacking host library file) (headerRegion host file)
        (attrhdrInHostOrder host (adhdrInHostOrder host (headerMemory host file))) after >>=
        extractResourceFork (unpacking host library file) (headerRegion host file)
          (attrhdrInHostOrder host (adhdrInHostOrder host (headerMemory host file)))) =
        .next (0, restored hdr (attributes.filterMap (applied library)) data) := by
    rintro after rfl
    rw [extractFinderInfo_header size adhdrBehind, bind_next,
      extractResourceFork_header size adhdrBehind small (by omega) length written]
    rfl
  have all := @copyfileUnpack_header Info host packer library hdr file data _ laid written
  rw [extractAttributes_table laid written some' adhdr, List.length_map] at all
  rw [all]
  constructor
  · intro result unpacks
    cases extracts : extractEntries (unpacking host library file) (headerRegion host file)
        (attrhdrInHostOrder host (adhdrInHostOrder host (headerMemory host file)))
        attributes.length (host.buffer + 120) ⟨[], 0⟩ with
    | exit left =>
        rw [extracts, bind_exit, bind_exit] at unpacks
        cases unpacks
    | fault access =>
        rw [extracts, bind_fault, bind_fault] at unpacks
        cases unpacks
    | next after =>
        rw [extracts, bind_next, bind_next] at unpacks
        rw [last after (partly after extracts)] at unpacks
        exact (Outcome.next.inj unpacks).symm
  · intro nonempty fits
    have extracts := wholly nonempty (by
      change _ ≤ hdrsize file
      rw [hdrsize_eq]
      omega)
    rw [extracts, bind_next, bind_next]
    exact last _ rfl

end Header

end LegacySupport.Copyfile
