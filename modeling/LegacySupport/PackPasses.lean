import LegacySupport.PackLayout

/-!
The two passes of `copyfile_pack` over the list of names: the first makes an entry for each name,
and the second fills them in the same order.
-/

namespace LegacySupport.Copyfile

open Bytes CInt CheckedMemory

variable {Info : Type}

def nameBytes (names : List (List UInt8)) : List UInt8 := names.flatMap (· ++ [0])

def ordinaryNames (names : List (List UInt8)) : List (List UInt8) :=
  names.filter fun name => ¬ isForkName name

def ordinary (attributes : Attributes) : Attributes :=
  attributes.filter fun attr => ¬ isForkName attr.1

theorem ordinary_names (attributes : Attributes) :
    (ordinary attributes).map Prod.fst = ordinaryNames (attributes.map Prod.fst) := by
  rw [ordinary, ordinaryNames, List.filter_map]
  rfl

theorem named_ordinary {attributes : Attributes} (named : Named (attributes.map Prod.fst)) :
    Named ((ordinary attributes).map Prod.fst) := by
  intro name member
  rw [ordinary_names] at member
  exact named name (List.mem_filter.mp member).1

theorem cstring_append (name rest : List UInt8) (nonzero : ∀ byte ∈ name, byte ≠ 0) :
    cstring (name ++ 0 :: rest) = name := by
  unfold cstring
  rw [List.takeWhile_append_of_pos (by simpa using nonzero)]
  simp

theorem nameBytes_cons (name : List UInt8) (names : List (List UInt8)) (tail : List UInt8) :
    nameBytes (name :: names) ++ tail = name ++ 0 :: (nameBytes names ++ tail) := by
  simp [nameBytes]

theorem length_nameBytes_cons (name : List UInt8) (names : List (List UInt8)) :
    (nameBytes (name :: names)).length = namelen name + (nameBytes names).length := by
  rw [nameBytes, List.flatMap_cons, List.length_append, List.length_append]
  rfl

theorem drop_name (name rest : List UInt8) : (name ++ 0 :: rest).drop (namelen name) = rest := by
  rw [namelen, List.drop_append]
  simp

/-! ## The first pass -/

def addNames (hdr : FileHdr) : Nat → List (List UInt8) → FileHdr
  | _, [] => hdr
  | entry, name :: names =>
      addNames (hdr.addName entry name (namelen name)) (entry + attrEntryLength (namelen name))
        names

theorem collectNames_eq (run : Packing Info) : ∀ names fuel tail state, Named names →
    (nameBytes names).length ≤ fuel →
      entriesEnd state.entry (ordinaryNames names) < attrMaxSize →
        collectNames run fuel (nameBytes names ++ tail) (nameBytes names).length state =
          some ⟨addNames state.hdr state.entry (ordinaryNames names),
            entriesEnd state.entry (ordinaryNames names),
            state.seenq || decide (run.system.qtnXattrName ∈ ordinaryNames names)⟩ := by
  intro names
  induction names with
  | nil =>
      intro fuel tail state named enough inside
      cases fuel with
      | zero => simp [collectNames, ordinaryNames, addNames, entriesEnd]
      | succ fuel => simp [collectNames, nameBytes, ordinaryNames, addNames, entriesEnd]
  | cons name names ih =>
      intro fuel tail state named enough inside
      obtain ⟨short, nonzero⟩ := named name List.mem_cons_self
      rw [length_nameBytes_cons] at enough ⊢
      cases fuel with
      | zero =>
          unfold namelen at enough
          omega
      | succ fuel =>
          have some' : ¬ namelen name + (nameBytes names).length = 0 := by
            unfold namelen
            omega
          have positive : 0 < namelen name := Nat.succ_pos _
          have left : namelen name + (nameBytes names).length - namelen name =
              (nameBytes names).length := by omega
          have whole : name.length + 1 = namelen name := rfl
          have clipped : (if xattrMaxnamelen + 1 < namelen name then xattrMaxnamelen + 1
              else namelen name) = namelen name := if_neg (by omega)
          rw [nameBytes_cons, collectNames, if_neg some']
          simp only [cstring_append name _ nonzero, whole, clipped, drop_name, left]
          by_cases fork : isForkName name
          · have skipped : ordinaryNames (name :: names) = ordinaryNames names := by
              simp [ordinaryNames, fork]
            rw [skipped] at inside ⊢
            rw [if_pos fork]
            exact ih fuel tail state named.tail (by omega) inside
          · have kept : ordinaryNames (name :: names) = name :: ordinaryNames names := by
              simp [ordinaryNames, fork]
            rw [kept, entriesEnd] at inside
            have later := entriesEnd_le (ordinaryNames names)
              (state.entry + attrEntryLength (namelen name))
            rw [if_neg fork, if_neg (by omega), if_neg (by omega), kept, addNames, entriesEnd,
              ih fuel tail _ named.tail (by omega) inside]
            have seen : (state.seenq || decide (name = run.system.qtnXattrName) ||
                decide (run.system.qtnXattrName ∈ ordinaryNames names)) =
              (state.seenq || decide (run.system.qtnXattrName ∈ name :: ordinaryNames names)) := by
              rw [Bool.or_assoc, ← Bool.decide_or]
              simp only [List.mem_cons, eq_comm]
            rw [seen]

def EmptyAt (area : Memory) : Nat → List (List UInt8) → Prop
  | _, [] => True
  | entry, name :: names =>
      (NameAt area entry name ∧
        ∀ address, entry ≤ address → address < entry + 8 → area address = 0) ∧
        EmptyAt area (entry + attrEntryLength (namelen name)) names

theorem EmptyAt.names {area : Memory} : ∀ names entry, EmptyAt area entry names →
    NamesAt area entry names := by
  intro names
  induction names with
  | nil => exact fun entry empty => True.intro
  | cons name names ih =>
      intro entry empty
      exact ⟨empty.1.1, ih _ empty.2⟩

theorem emptyAt_congr {area other : Memory} : ∀ names entry,
    (∀ address, entry ≤ address → address < entriesEnd entry names →
      area address = other address) → EmptyAt area entry names → EmptyAt other entry names := by
  intro names
  induction names with
  | nil => exact fun entry same empty => True.intro
  | cons name names ih =>
      intro entry same empty
      have bounds := attrEntryLength_namelen name
      have ends := entriesEnd_le names (entry + attrEntryLength (namelen name))
      rw [entriesEnd] at same
      obtain ⟨⟨named, zeros⟩, others⟩ := empty
      refine ⟨⟨⟨?_, ?_⟩, fun address lower upper => ?_⟩,
        ih _ (fun address behind before => same address (by omega) before) others⟩
      · rw [← same (entry + 10) (by omega) (by omega)]
        exact named.length
      · rw [← named.bytes]
        exact bytesAt_congr _ _ fun index bound => (same _ (by omega) (by omega)).symm
      · rw [← same address lower (by omega)]
        exact zeros address lower upper

theorem encode_zero (order : ByteOrder) : encode order 4 0 = List.replicate 4 0 := by
  cases order with
  | little => rfl
  | big => rfl

theorem entryAt_empty {order : ByteOrder} {area : Memory} {limit entry offset : Nat}
    {name : List UInt8} (named : NameAt area entry name)
    (zeros : ∀ address, entry ≤ address → address < entry + 8 → area address = 0) :
    EntryAt order area 0 limit entry offset (name, []) := by
  have number : ∀ start, entry ≤ start → start + 4 ≤ entry + 8 →
      bytesAt area start 4 = encode order 4 0 := by
    intro start lower upper
    rw [encode_zero]
    exact bytesAt_eq area start (List.replicate 4 0) fun index bound => by
      rw [List.length_replicate] at bound
      rw [List.getElem_replicate]
      exact zeros _ (by omega) (by omega)
  exact ⟨named, ⟨0, Or.inr ⟨rfl, rfl⟩, number entry (by omega) (by omega)⟩,
    number (entry + 4) (by omega) (by omega), fun fits => rfl⟩

theorem addName_area (hdr : FileHdr) (entry : Nat) (name : List UInt8) :
    NameAt (hdr.addName entry name (namelen name)).area entry name ∧
      ∀ address, (address < entry + 8 ∨ entry + attrEntryLength (namelen name) ≤ address) →
        (hdr.addName entry name (namelen name)).area address = hdr.area address := by
  have bounds := attrEntryLength_namelen name
  have whole : (name ++ [0]).take (namelen name) = name ++ [0] :=
    List.take_of_length_le (by simp [namelen])
  unfold FileHdr.addName
  dsimp only
  rw [whole]
  refine ⟨⟨?_, ?_⟩, fun address outside => ?_⟩
  · rw [stored, if_pos (by simp; omega), Nat.add_sub_add_left]
    rfl
  · have length : (name ++ [0]).length = namelen name := by simp [namelen]
    have read := bytesAt_stored_append hdr.area (entry + 8) [0, 0, UInt8.ofNat (namelen name)]
      (name ++ [0])
    rw [length] at read
    exact read
  · apply stored_outside
    simp only [List.length_append, List.length_cons, List.length_nil]
    unfold namelen at bounds outside
    omega

/-- The first pass makes an empty entry for each name, one behind the other. -/
theorem addNames_spec : ∀ names entry hdr,
    (∀ address, entry ≤ address → hdr.area address = 0) → hdr.dataStart = entry →
      entriesEnd entry names < 2 ^ 32 → hdr.numAttrs + names.length < 2 ^ 16 →
        ∃ area, addNames hdr entry names =
            { hdr with
              area := area
              numAttrs := hdr.numAttrs + names.length
              dataStart := entriesEnd entry names } ∧
          (∀ address, (address < entry ∨ entriesEnd entry names ≤ address) →
            area address = hdr.area address) ∧
          EmptyAt area entry names := by
  intro names
  induction names with
  | nil =>
      intro entry hdr blank start small few
      refine ⟨hdr.area, ?_, fun address outside => rfl, True.intro⟩
      rw [addNames, entriesEnd, ← start]
      rfl
  | cons name names ih =>
      intro entry hdr blank start small few
      obtain ⟨named, kept⟩ := addName_area hdr entry name
      have bounds := attrEntryLength_namelen name
      have later := entriesEnd_le names (entry + attrEntryLength (namelen name))
      rw [entriesEnd] at small
      rw [List.length_cons] at few
      obtain ⟨area, added, outside, entries⟩ := ih (entry + attrEntryLength (namelen name))
        (hdr.addName entry name (namelen name))
        (fun address behind => by rw [kept address (Or.inr behind)]; exact blank _ (by omega))
        (by
          rw [FileHdr.addName]
          dsimp only
          rw [start, Nat.mod_eq_of_lt (by omega)])
        small
        (by
          rw [FileHdr.addName]
          dsimp only
          rw [Nat.mod_eq_of_lt (by omega)]
          omega)
      refine ⟨area, ?_, fun address far => ?_, ⟨⟨?_, ?_⟩, fun address behind before => ?_⟩, entries⟩
      · rw [addNames, added, FileHdr.addName, entriesEnd, List.length_cons]
        dsimp only
        rw [Nat.mod_eq_of_lt (by omega), Nat.add_assoc, Nat.add_comm 1]
      · rw [entriesEnd] at far
        rw [outside _ (by omega), kept _ (by omega)]
      · rw [outside _ (by omega)]
        exact named.length
      · rw [← named.bytes]
        exact bytesAt_congr _ _ fun index bound => outside _ (by omega)
      · rw [outside _ (by omega), kept _ (Or.inl before)]
        exact blank _ behind

/-! ## The second pass -/

section Data

variable (run : Packing Info)

def packedValue (name value : List UInt8) : List UInt8 :=
  if name = xattrSecurityName then run.system.aclText.getD [] ++ [0]
  else
    match if name = run.system.qtnXattrName then run.qinfo else none with
    | some info => (run.system.qtnFileToData info).getD []
    | none => value

def packedValues (attributes : Attributes) : Attributes :=
  (ordinary attributes).map fun attr => (attr.1, packedValue run attr.1 attr.2)

def totalLength (attributes : Attributes) : Nat := (attributes.map fun attr => attr.2.length).sum

def finfoAfter (finfo : List UInt8) : Attributes → List UInt8
  | [] => finfo
  | attr :: rest => finfoAfter (if attr.1 = xattrFinderinfoName then attr.2 else finfo) rest

structure Readable (attributes : Attributes) : Prop where
  malloc : ∀ count, run.system.malloc count = true
  toData : ∀ info, ∃ data, run.system.qtnFileToData info = some data
  acl : xattrSecurityName ∈ attributes.map Prod.fst → ∃ text, run.system.aclText = some text
  value : ∀ attr ∈ attributes, run.system.fgetxattr attr.1 = .ok attr.2
  small : ∀ attr ∈ attributes, ¬ isForkName attr.1 → attr.2.length ≤ xattrMaxattrlen
  finfo : ∀ attr ∈ attributes, attr.1 = xattrFinderinfoName → attr.2.length = 32
  qtnName : ¬ isForkName run.system.qtnXattrName

theorem Readable.tail {attr : List UInt8 × List UInt8} {attributes : Attributes}
    (readable : Readable run (attr :: attributes)) : Readable run attributes where
  malloc := readable.malloc
  toData := readable.toData
  acl member := readable.acl (List.mem_cons_of_mem _ member)
  value other member := readable.value other (List.mem_cons_of_mem _ member)
  small other member := readable.small other (List.mem_cons_of_mem _ member)
  finfo other member := readable.finfo other (List.mem_cons_of_mem _ member)
  qtnName := readable.qtnName

theorem gather_ordinary {attr : List UInt8 × List UInt8} {attributes : Attributes}
    (readable : Readable run (attr :: attributes)) (fork : ¬ isForkName attr.1) (state : Packed) :
    gather run attr.1 state = .next (state, .data (packedValue run attr.1 attr.2) true) ∨
      (packedValue run attr.1 attr.2 = [] ∧ gather run attr.1 state = .next (state, .skip)) := by
  unfold gather packedValue
  by_cases security : attr.1 = xattrSecurityName
  · left
    obtain ⟨text, acl⟩ := readable.acl (by rw [← security]; exact List.mem_cons_self)
    rw [if_pos security, if_pos security, acl]
    simp only [readable.malloc, if_true, Option.getD_some]
  · rw [if_neg security, if_neg security]
    cases quarantined : if attr.1 = run.system.qtnXattrName then run.qinfo else none with
    | some info =>
        left
        obtain ⟨data, serial⟩ := readable.toData info
        dsimp only
        rw [serial]
        simp only [readable.malloc, if_true, Option.getD_some]
    | none =>
        dsimp only
        rw [if_neg fun same => fork (Or.inl same), if_neg fun same => fork (Or.inr same),
          readable.value attr List.mem_cons_self]
        dsimp only
        by_cases empty : attr.2.length = 0
        · right
          exact ⟨List.length_eq_zero_iff.mp empty, if_pos empty⟩
        · left
          have small := readable.small attr List.mem_cons_self fork
          rw [if_neg empty, if_neg (by omega)]
          simp only [readable.malloc, if_true]

theorem gather_finderInfo {attr : List UInt8 × List UInt8} {attributes : Attributes}
    (readable : Readable run (attr :: attributes)) (finder : attr.1 = xattrFinderinfoName)
    (state : Packed) (finfo : state.hdr.finfo.length = 32) :
    gather run attr.1 state =
      .next ({ state with hdr := { state.hdr with finfo := attr.2 } }, .none) := by
  have notQuarantine : ¬ attr.1 = run.system.qtnXattrName := by
    intro same
    exact readable.qtnName (Or.inl (same.symm.trans finder))
  have length := readable.finfo attr List.mem_cons_self finder
  have notSecurity : ¬ attr.1 = xattrSecurityName := by
    rw [finder]
    decide
  unfold gather
  rw [if_neg notSecurity, if_neg notQuarantine]
  dsimp only
  rw [if_pos finder, readable.value attr List.mem_cons_self]
  dsimp only
  rw [if_neg (by omega), length, List.drop_of_length_le (by omega), List.append_nil]

theorem gather_resourceFork {attr : List UInt8 × List UInt8} {attributes : Attributes}
    (readable : Readable run (attr :: attributes)) (forked : attr.1 = xattrResourceforkName)
    (state : Packed) :
    gather run attr.1 state = .next ({ state with hasrsrcfork := true }, .none) := by
  have notQuarantine : ¬ attr.1 = run.system.qtnXattrName := by
    intro same
    exact readable.qtnName (Or.inr (same.symm.trans forked))
  have notSecurity : ¬ attr.1 = xattrSecurityName := by
    rw [forked]
    decide
  have notFinder : ¬ attr.1 = xattrFinderinfoName := by
    rw [forked]
    decide
  unfold gather
  rw [if_neg notSecurity, if_neg notQuarantine]
  dsimp only
  rw [if_neg notFinder, if_pos forked]

theorem placeData_fits (state : Packed) (bytes : List UInt8)
    (fits : state.hdr.dataStart + state.hdr.dataLength + bytes.length ≤ attrMaxSize) :
    placeData run state bytes true =
      .next { state with
        hdr := { state.hdr with
          dataLength := state.hdr.dataLength + bytes.length
          area := stored (stored state.hdr.area state.entry
              (encode run.host.order 4 (state.hdr.dataStart + state.hdr.dataLength) ++
                encode run.host.order 4 bytes.length))
            (state.hdr.dataStart + state.hdr.dataLength) bytes }
        dangling := true } := by
  have limit : attrMaxSize < 2 ^ 32 := by decide
  have offset : (state.hdr.dataStart + state.hdr.dataLength) % 2 ^ 32 =
      state.hdr.dataStart + state.hdr.dataLength := Nat.mod_eq_of_lt (by omega)
  have length : (state.hdr.dataLength + bytes.length) % 2 ^ 32 =
      state.hdr.dataLength + bytes.length := Nat.mod_eq_of_lt (by omega)
  have room : ¬ (attrMaxSize < state.hdr.dataStart + state.hdr.dataLength ∨
      attrMaxSize < state.hdr.dataStart + state.hdr.dataLength + bytes.length) := by omega
  unfold placeData
  dsimp only
  rw [offset, length, if_neg (by simp), if_neg room, if_neg room]

theorem ordinary_cons_fork {attr : List UInt8 × List UInt8} (attributes : Attributes)
    (fork : isForkName attr.1) : ordinary (attr :: attributes) = ordinary attributes := by
  simp [ordinary, fork]

theorem ordinary_cons {attr : List UInt8 × List UInt8} (attributes : Attributes)
    (fork : ¬ isForkName attr.1) : ordinary (attr :: attributes) = attr :: ordinary attributes := by
  simp [ordinary, fork]

theorem packedValues_cons {attr : List UInt8 × List UInt8} (attributes : Attributes)
    (fork : ¬ isForkName attr.1) : packedValues run (attr :: attributes) =
      (attr.1, packedValue run attr.1 attr.2) :: packedValues run attributes := by
  rw [packedValues, ordinary_cons attributes fork, packedValues]
  rfl

theorem packedValues_cons_fork {attr : List UInt8 × List UInt8} (attributes : Attributes)
    (fork : isForkName attr.1) :
    packedValues run (attr :: attributes) = packedValues run attributes := by
  rw [packedValues, ordinary_cons_fork attributes fork, packedValues]

theorem packedValues_names (attributes : Attributes) :
    (packedValues run attributes).map Prod.fst = (ordinary attributes).map Prod.fst := by
  rw [packedValues, List.map_map]
  rfl

/-- What the second pass leaves of a state. -/
structure Filled (attributes : Attributes) (before after : Packed) (area : Memory) : Prop where
  hdr : after.hdr = { before.hdr with
    finfo := finfoAfter before.hdr.finfo attributes
    dataLength := before.hdr.dataLength + totalLength (packedValues run attributes)
    area := area }
  error : after.error = before.error
  fork : after.hasrsrcfork =
    (before.hasrsrcfork || decide (xattrResourceforkName ∈ attributes.map Prod.fst))
  kept : ∀ address, (address < before.entry ∨ (before.hdr.dataStart ≤ address ∧
    address < before.hdr.dataStart + before.hdr.dataLength)) →
      area address = before.hdr.area address
  entries : EntriesAt run.host.order area 0 attrMaxSize before.entry
    (before.hdr.dataStart + before.hdr.dataLength) (packedValues run attributes)

/-- What the second pass starts from: the empty entries of the names, with room behind them. -/
structure Fillable (attributes : Attributes) (before : Packed) : Prop where
  finfo : before.hdr.finfo.length = 32
  entries : EmptyAt before.hdr.area before.entry ((ordinary attributes).map Prod.fst)
  table : entriesEnd before.entry ((ordinary attributes).map Prod.fst) ≤ before.hdr.dataStart
  room : before.hdr.dataStart + before.hdr.dataLength +
    totalLength (packedValues run attributes) ≤ attrMaxSize

theorem entryAt_congr {order : ByteOrder} {memory other : Memory} {base limit entry offset : Nat}
    {attr : List UInt8 × List UInt8} (entryAt : EntryAt order memory base limit entry offset attr)
    (same : ∀ address, entry ≤ address → address < entry + attrEntryLength (namelen attr.1) →
      memory address = other address)
    (sameData : ∀ address, base + offset ≤ address → address < base + offset + attr.2.length →
      memory address = other address) : EntryAt order other base limit entry offset attr := by
  have bounds := attrEntryLength_namelen attr.1
  obtain ⟨start, meant, stored⟩ := entryAt.place
  constructor
  · constructor
    · rw [← same (entry + 10) (by omega) (by omega)]
      exact entryAt.name.length
    · rw [← entryAt.name.bytes]
      exact bytesAt_congr _ _ fun index bound => (same _ (by omega) (by omega)).symm
  · refine ⟨start, meant, ?_⟩
    rw [← stored]
    exact bytesAt_congr _ _ fun index bound => (same _ (by omega) (by omega)).symm
  · rw [← entryAt.length]
    exact bytesAt_congr _ _ fun index bound => (same _ (by omega) (by omega)).symm
  · intro fits
    refine Eq.trans ?_ (entryAt.data fits)
    exact bytesAt_congr _ _ fun index bound => (sameData _ (by omega) (by omega)).symm

theorem entryAt_filled (order : ByteOrder) (limit : Nat) {area : Memory} {entry offset : Nat}
    {name : List UInt8} (named : NameAt area entry name) (bytes : List UInt8)
    (behind : entry + attrEntryLength (namelen name) ≤ offset) :
    EntryAt order (stored (stored area entry (encode order 4 offset ++ encode order 4 bytes.length))
      offset bytes) 0 limit entry offset (name, bytes) := by
  have bounds := attrEntryLength_namelen name
  have numbers : (encode order 4 offset ++ encode order 4 bytes.length).length = 8 := by simp
  have first := bytesAt_stored area entry (encode order 4 offset ++ encode order 4 bytes.length)
  have second := bytesAt_stored_append area entry (encode order 4 offset)
    (encode order 4 bytes.length)
  have halves : 8 = 4 + 4 := rfl
  rw [numbers, halves, bytesAt_append] at first
  rw [length_encode, length_encode] at second
  constructor
  · constructor
    · rw [stored_outside _ _ _ _ (by omega), stored_outside _ _ _ _ (by omega)]
      exact named.length
    · dsimp only
      rw [bytesAt_stored_outside _ _ _ _ _ (by omega), bytesAt_stored_outside _ _ _ _ _ (by omega)]
      exact named.bytes
  · refine ⟨offset, Or.inl rfl, ?_⟩
    rw [bytesAt_stored_outside _ _ _ _ _ (by omega)]
    exact (List.append_inj first (by simp [length_bytesAt])).1
  · rw [bytesAt_stored_outside _ _ _ _ _ (by omega)]
    exact second
  · intro fits
    rw [Nat.zero_add]
    exact bytesAt_stored _ offset bytes

theorem collectData_cons (fuel : Nat) (name rest : List UInt8) (left : Nat) (state : Packed)
    (nonzero : ∀ byte ∈ name, byte ≠ 0) :
    collectData run (fuel + 1) (name ++ 0 :: rest) (namelen name + left) state =
      gather run name state >>= fun found =>
        match found.2 with
        | .none => collectData run fuel rest left found.1
        | .skip => collectData run fuel rest left found.1.bump
        | .data bytes allocated =>
            placeData run found.1 bytes allocated >>= fun placed =>
              collectData run fuel rest left placed.bump := by
  have some' : ¬ namelen name + left = 0 := by
    unfold namelen
    omega
  have whole : name.length + 1 = namelen name := rfl
  have rest' : namelen name + left - namelen name = left := by omega
  rewrite [collectData, if_neg some', cstring_append name _ nonzero]
  dsimp only
  rewrite [whole, drop_name, rest']
  rfl

theorem filled_fork {attr : List UInt8 × List UInt8} {attributes : Attributes}
    {before next after : Packed} {area : Memory} (fork : isForkName attr.1)
    (filled : Filled run attributes next after area) (entry : next.entry = before.entry)
    (hdr : next.hdr = { before.hdr with
      finfo := if attr.1 = xattrFinderinfoName then attr.2 else before.hdr.finfo })
    (error : next.error = before.error)
    (forked : next.hasrsrcfork =
      (before.hasrsrcfork || decide (xattrResourceforkName = attr.1))) :
    Filled run (attr :: attributes) before after area := by
  constructor
  · rw [filled.hdr, hdr, finfoAfter, packedValues_cons_fork run attributes fork]
  · rw [filled.error, error]
  · rw [filled.fork, forked, Bool.or_assoc, ← Bool.decide_or, List.map_cons]
    simp only [List.mem_cons]
  · intro address outside
    have kept := filled.kept address
    rw [hdr, entry] at kept
    exact kept outside
  · have entries := filled.entries
    rw [hdr, entry] at entries
    rw [packedValues_cons_fork run attributes fork]
    exact entries

theorem filled_entry {attr : List UInt8 × List UInt8} {attributes : Attributes}
    {before next after : Packed} {area : Memory} (fork : ¬ isForkName attr.1)
    (filled : Filled run attributes next after area)
    (behind : before.entry + attrEntryLength (namelen attr.1) ≤ before.hdr.dataStart)
    (entry : next.entry = before.entry + attrEntryLength (namelen attr.1))
    (hdr : next.hdr = { before.hdr with
      dataLength := before.hdr.dataLength + (packedValue run attr.1 attr.2).length
      area := next.hdr.area })
    (error : next.error = before.error) (forked : next.hasrsrcfork = before.hasrsrcfork)
    (kept : ∀ address, (address < before.entry ∨ (before.entry + 8 ≤ address ∧
      address < before.hdr.dataStart + before.hdr.dataLength)) →
        next.hdr.area address = before.hdr.area address)
    (first : EntryAt run.host.order next.hdr.area 0 attrMaxSize before.entry
      (before.hdr.dataStart + before.hdr.dataLength)
      (attr.1, packedValue run attr.1 attr.2)) :
    Filled run (attr :: attributes) before after area := by
  have bounds := attrEntryLength_namelen attr.1
  have start : next.hdr.dataStart = before.hdr.dataStart := by rw [hdr]
  have length : next.hdr.dataLength =
      before.hdr.dataLength + (packedValue run attr.1 attr.2).length := by rw [hdr]
  have later := filled.kept
  rw [start, length, entry] at later
  constructor
  · rw [filled.hdr, hdr, packedValues_cons run attributes fork, finfoAfter,
      if_neg fun same => fork (Or.inl same)]
    simp only [totalLength, List.map_cons, List.sum_cons, Nat.add_assoc]
  · rw [filled.error, error]
  · have other : ¬ xattrResourceforkName = attr.1 := fun same => fork (Or.inr same.symm)
    rw [filled.fork, forked, List.map_cons]
    simp only [List.mem_cons, other, false_or]
  · intro address outside
    rw [later address (by omega), kept address (by omega)]
  · have entries := filled.entries
    rw [start, length, entry] at entries
    rw [packedValues_cons run attributes fork]
    refine ⟨entryAt_congr first (fun address lower upper => ?_) (fun address lower upper => ?_), ?_⟩
    · exact (later address (Or.inl upper)).symm
    · dsimp only at upper
      exact (later address (by omega)).symm
    · rw [Nat.add_assoc]
      exact entries

theorem fillable_entry {attr : List UInt8 × List UInt8} {attributes : Attributes}
    {before next : Packed} (fork : ¬ isForkName attr.1)
    (fillable : Fillable run (attr :: attributes) before)
    (entry : next.entry = before.entry + attrEntryLength (namelen attr.1))
    (hdr : next.hdr = { before.hdr with
      dataLength := before.hdr.dataLength + (packedValue run attr.1 attr.2).length
      area := next.hdr.area })
    (kept : ∀ address, (address < before.entry ∨ (before.entry + 8 ≤ address ∧
      address < before.hdr.dataStart + before.hdr.dataLength)) →
        next.hdr.area address = before.hdr.area address) : Fillable run attributes next := by
  have start : next.hdr.dataStart = before.hdr.dataStart := by rw [hdr]
  have length : next.hdr.dataLength =
      before.hdr.dataLength + (packedValue run attr.1 attr.2).length := by rw [hdr]
  have finfo : next.hdr.finfo = before.hdr.finfo := by rw [hdr]
  have bounds := attrEntryLength_namelen attr.1
  obtain ⟨long, entries, table, room⟩ := fillable
  rw [ordinary_cons attributes fork, List.map_cons] at entries table
  rw [entriesEnd] at table
  rw [packedValues_cons run attributes fork, totalLength, List.map_cons, List.sum_cons] at room
  dsimp only at room
  constructor
  · rw [finfo]
    exact long
  · rw [entry]
    exact emptyAt_congr _ _ (fun address lower upper => (kept address (by omega)).symm) entries.2
  · rw [entry, start]
    exact table
  · rw [start, length]
    unfold totalLength
    omega

theorem fillable_fork {attr : List UInt8 × List UInt8} {attributes : Attributes}
    {before next : Packed} (readable : Readable run (attr :: attributes))
    (fork : isForkName attr.1) (fillable : Fillable run (attr :: attributes) before)
    (entry : next.entry = before.entry)
    (hdr : next.hdr = { before.hdr with
      finfo := if attr.1 = xattrFinderinfoName then attr.2 else before.hdr.finfo }) :
    Fillable run attributes next := by
  obtain ⟨long, entries, table, room⟩ := fillable
  rw [ordinary_cons_fork attributes fork] at entries table
  rw [packedValues_cons_fork run attributes fork] at room
  constructor
  · rw [hdr]
    dsimp only
    split
    next finder => exact readable.finfo attr List.mem_cons_self finder
    next => exact long
  · rw [hdr, entry]
    exact entries
  · rw [hdr, entry]
    exact table
  · rw [hdr]
    exact room

theorem gather_fork {attr : List UInt8 × List UInt8} {attributes : Attributes}
    (readable : Readable run (attr :: attributes)) (fork : isForkName attr.1) (before : Packed)
    (finfo : before.hdr.finfo.length = 32) :
    ∃ next, gather run attr.1 before = .next (next, .none) ∧ next.entry = before.entry ∧
      next.hdr = { before.hdr with
        finfo := if attr.1 = xattrFinderinfoName then attr.2 else before.hdr.finfo } ∧
      next.error = before.error ∧
      next.hasrsrcfork = (before.hasrsrcfork || decide (xattrResourceforkName = attr.1)) := by
  rcases fork with finder | forked
  · refine ⟨_, gather_finderInfo run readable finder before finfo, rfl, ?_, rfl, ?_⟩
    · rw [if_pos finder]
    · have other : ¬ xattrResourceforkName = attr.1 := by
        rw [finder]
        decide
      simp [other]
  · refine ⟨_, gather_resourceFork run readable forked before, rfl, ?_, rfl, ?_⟩
    · have other : ¬ attr.1 = xattrFinderinfoName := by
        rw [forked]
        decide
      rw [if_neg other]
    · simp [forked]

theorem collectData_entry {attr : List UInt8 × List UInt8} {attributes : Attributes}
    (readable : Readable run (attr :: attributes)) (fork : ¬ isForkName attr.1)
    (short : namelen attr.1 ≤ xattrMaxnamelen + 1) (nonzero : ∀ byte ∈ attr.1, byte ≠ 0)
    (fuel : Nat) (rest : List UInt8) (left : Nat) (before : Packed)
    (fillable : Fillable run (attr :: attributes) before) :
    ∃ next, collectData run (fuel + 1) (attr.1 ++ 0 :: rest) (namelen attr.1 + left) before =
        collectData run fuel rest left next ∧
      next.entry = before.entry + attrEntryLength (namelen attr.1) ∧
      next.hdr = { before.hdr with
        dataLength := before.hdr.dataLength + (packedValue run attr.1 attr.2).length
        area := next.hdr.area } ∧
      next.error = before.error ∧ next.hasrsrcfork = before.hasrsrcfork ∧
      (∀ address, (address < before.entry ∨ (before.entry + 8 ≤ address ∧
        address < before.hdr.dataStart + before.hdr.dataLength)) →
          next.hdr.area address = before.hdr.area address) ∧
      EntryAt run.host.order next.hdr.area 0 attrMaxSize before.entry
        (before.hdr.dataStart + before.hdr.dataLength)
        (attr.1, packedValue run attr.1 attr.2) := by
  obtain ⟨long, entries, table, room⟩ := fillable
  rw [ordinary_cons attributes fork, List.map_cons] at entries table
  rw [packedValues_cons run attributes fork, totalLength, List.map_cons, List.sum_cons] at room
  dsimp only at room
  obtain ⟨named, zeros⟩ := entries.1
  have bounds := attrEntryLength_namelen attr.1
  have ends := entriesEnd_le ((ordinary attributes).map Prod.fst)
    (before.entry + attrEntryLength (namelen attr.1))
  rw [entriesEnd] at table
  rw [collectData_cons run fuel attr.1 rest left before nonzero]
  rcases gather_ordinary run readable fork before with found | ⟨empty, skipped⟩
  · have placed := placeData_fits run before (packedValue run attr.1 attr.2) (by omega)
    rw [found, bind_next]
    dsimp only
    rw [placed, bind_next]
    have behind : before.entry + attrEntryLength (namelen attr.1) ≤
        before.hdr.dataStart + before.hdr.dataLength := by omega
    have filled := entryAt_filled run.host.order attrMaxSize named
      (packedValue run attr.1 attr.2) behind
    have next := filled.name.toNat short
    refine ⟨_, rfl, ?_, rfl, rfl, rfl, fun address outside => ?_, filled⟩
    · exact congrArg (fun length => before.entry + attrEntryLength length) next
    · dsimp only [Packed.bump]
      rw [stored_outside _ _ _ _ (by omega), stored_outside _ _ _ _ (by simp; omega)]
  · rw [skipped, bind_next]
    dsimp only
    rw [empty]
    refine ⟨_, rfl, ?_, rfl, rfl, rfl, fun address outside => rfl, entryAt_empty named zeros⟩
    exact congrArg (fun length => before.entry + attrEntryLength length) (named.toNat short)

theorem collectData_spec : ∀ attributes fuel tail before, Readable run attributes →
    Named (attributes.map Prod.fst) → (nameBytes (attributes.map Prod.fst)).length ≤ fuel →
      Fillable run attributes before →
        ∃ after area, collectData run fuel (nameBytes (attributes.map Prod.fst) ++ tail)
            (nameBytes (attributes.map Prod.fst)).length before = .next after ∧
          Filled run attributes before after area := by
  intro attributes
  induction attributes with
  | nil =>
      intro fuel tail before readable named enough fillable
      refine ⟨before, before.hdr.area, ?_, ⟨rfl, rfl, ?_, fun address outside => rfl, True.intro⟩⟩
      · cases fuel with
        | zero => rfl
        | succ fuel => rfl
      · simp
  | cons attr attributes ih =>
      intro fuel tail before readable named enough fillable
      obtain ⟨short, nonzero⟩ := named attr.1 List.mem_cons_self
      rw [List.map_cons, length_nameBytes_cons] at enough
      rw [List.map_cons, length_nameBytes_cons, nameBytes_cons]
      cases fuel with
      | zero =>
          unfold namelen at enough
          omega
      | succ fuel =>
          have positive : 0 < namelen attr.1 := Nat.succ_pos _
          have enough' : (nameBytes (attributes.map Prod.fst)).length ≤ fuel := by omega
          by_cases fork : isForkName attr.1
          · obtain ⟨next, gathered, entry, hdr, error, forked⟩ :=
              gather_fork run readable fork before fillable.finfo
            obtain ⟨after, area, collected, filled⟩ := ih fuel tail next readable.tail named.tail
              enough' (fillable_fork run readable fork fillable entry hdr)
            refine ⟨after, area, ?_, filled_fork run fork filled entry hdr error forked⟩
            rw [collectData_cons run fuel attr.1 _ _ before nonzero, gathered, bind_next]
            exact collected
          · obtain ⟨next, same, entry, hdr, error, forked, kept, first⟩ :=
              collectData_entry run readable fork short nonzero fuel
                (nameBytes (attributes.map Prod.fst) ++ tail)
                (nameBytes (attributes.map Prod.fst)).length before fillable
            obtain ⟨after, area, collected, filled⟩ := ih fuel tail next readable.tail named.tail
              enough' (fillable_entry run fork fillable entry hdr kept)
            have table := fillable.table
            have ends := entriesEnd_le ((ordinary attributes).map Prod.fst)
              (before.entry + attrEntryLength (namelen attr.1))
            rw [ordinary_cons attributes fork, List.map_cons, entriesEnd] at table
            refine ⟨after, area, ?_, filled_entry run fork filled (by omega) entry hdr error forked
              kept first⟩
            rw [same]
            exact collected

end Data

end LegacySupport.Copyfile
