import LegacySupport.PackDrift
import LegacySupport.UnpackFile

/-!
A file is packed, and the result unpacked on a target that has no attributes. The target gets the
source's attributes unless every value is empty, an attribute has the name of the access control
list, or there is quarantine information that the list of names does not have.
-/

namespace LegacySupport.Copyfile

open Bytes CInt CheckedMemory

variable {Info : Type}

/-! ## The source and what is expected of the target -/

def enoattr : Errno := 93

structure Source (Info : Type) where
  attributes : Attributes
  qinfo : Option Info
  inode : Nat

variable (library : Quarantine Info)

/-- Quarantine information that is given stands for the attribute that would hold it. -/
def Source.value (source : Source Info) (attr : List UInt8 × List UInt8) :
    List UInt8 × List UInt8 :=
  match if attr.1 = library.xattrName then source.qinfo else none with
  | some info => (attr.1, library.toData info)
  | none => attr

def Source.expected (source : Source Info) : Attributes :=
  match source.qinfo with
  | some info =>
      if library.xattrName ∈ source.attributes.map Prod.fst then
        source.attributes.map (source.value library)
      else source.attributes ++ [(library.xattrName, library.toData info)]
  | none => source.attributes

def sourceSystem (attributes : Attributes) (acl : Option (List UInt8)) : PackSystem Info where
  malloc _ := true
  flistxattr := .ok (attributes.map Prod.fst)
  fgetxattr name :=
    match attributes.find? (fun attr => attr.1 = name) with
    | some attr => .ok attr.2
    | none => .error enoattr
  qtnXattrName := library.xattrName
  qtnFileToData info := some (library.toData info)
  aclText := acl
  writeFails _ _ := false
  copyfileStat := 0

def packing (host : Host attrMaxSize) (source : Source Info) (acl : Option (List UInt8)) :
    Packing Info :=
  ⟨host, sourceSystem library source.attributes acl, ⟨false, true, false⟩, source.qinfo,
    source.inode⟩

/-- The file that is packed, perhaps on another machine, gives the target what is expected. -/
def RoundTrips (packer : Host attrMaxSize) (host : Host attrMaxHdrSize) (source : Source Info)
    (acl : Option (List UInt8)) : Prop :=
  ∃ file after, copyfilePack (packing library packer source acl) [] = .next (0, file) ∧
    copyfileUnpack (unpacking host library file) ⟨[], 0⟩ = .next (0, after) ∧
      after.target.Perm (source.expected library)

structure Packable (source : Source Info) : Prop where
  distinct : (source.attributes.map Prod.fst).Nodup
  names : ∀ attr ∈ source.attributes, attr.1 ≠ [] ∧ attr.1.length ≤ xattrMaxnamelen ∧
    ∀ byte ∈ attr.1, byte ≠ 0
  values : ∀ attr ∈ source.attributes, ¬ isForkName attr.1 → attr.2.length ≤ xattrMaxattrlen
  finder : ∀ attr ∈ source.attributes, attr.1 = xattrFinderinfoName →
    attr.2.length = 32 ∧ attr.2 ≠ emptyfinfo
  qinfo : ∀ info, source.qinfo = some info → (library.toData info).length ≤ xattrMaxattrlen
  fits : entriesEnd 120 ((ordinary (source.expected library)).map Prod.fst) +
    totalLength (ordinary (source.expected library)) ≤ attrMaxHdrSize

structure Restorable (source : Source Info) : Prop where
  noAcl : xattrSecurityName ∉ source.attributes.map Prod.fst
  listed : source.qinfo.isSome → library.xattrName ∈ source.attributes.map Prod.fst
  quarantine : source.qinfo = none → ∀ attr ∈ source.attributes, attr.1 = library.xattrName →
    (library.ofData attr.2).map library.toData = some attr.2
  someValue : ordinary (source.expected library) ≠ [] →
    ∃ attr ∈ ordinary (source.expected library), attr.2 ≠ []
  fork : ∀ attr ∈ source.attributes, attr.1 = xattrResourceforkName →
    attr.2 ≠ [] ∧ attr.2.length ≤ intMax

/-! ## The attributes of a name -/

def namedAttributes (name : List UInt8) (attributes : Attributes) : Attributes :=
  attributes.filter fun attr => attr.1 = name

section Names

variable {attributes : Attributes}

theorem namedAttributes_absent {name : List UInt8} (absent : name ∉ attributes.map Prod.fst) :
    namedAttributes name attributes = [] := by
  rw [namedAttributes, List.filter_eq_nil_iff]
  intro attr member same
  rw [← of_decide_eq_true same] at absent
  exact absent (List.mem_map_of_mem member)

theorem namedAttributes_present (name value : List UInt8) : ∀ attributes : Attributes,
    (attributes.map Prod.fst).Nodup → (name, value) ∈ attributes →
      namedAttributes name attributes = [(name, value)] := by
  intro attributes
  induction attributes with
  | nil =>
      intro distinct member
      cases member
  | cons attr attributes ih =>
      intro distinct member
      obtain ⟨other, distinct⟩ := List.nodup_cons.mp distinct
      rcases List.mem_cons.mp member with same | later
      · rw [← same] at other ⊢
        rw [namedAttributes, List.filter_cons_of_pos (by simp)]
        exact congrArg _ (namedAttributes_absent other)
      · have differs : ¬ attr.1 = name := by
          rintro rfl
          have again : (attr.1, value).1 ∈ attributes.map Prod.fst := List.mem_map_of_mem later
          exact other again
        rw [namedAttributes, List.filter_cons_of_neg (by simpa using differs)]
        exact ih distinct later

theorem find?_name (attr : List UInt8 × List UInt8) : ∀ attributes : Attributes,
    (attributes.map Prod.fst).Nodup → attr ∈ attributes →
      attributes.find? (fun other => other.1 = attr.1) = some attr := by
  intro attributes
  induction attributes with
  | nil =>
      intro distinct member
      cases member
  | cons first attributes ih =>
      intro distinct member
      obtain ⟨other, distinct⟩ := List.nodup_cons.mp distinct
      rcases List.mem_cons.mp member with same | later
      · rw [same, List.find?_cons_of_pos (by simp)]
      · have differs : ¬ first.1 = attr.1 := by
          intro same
          rw [same] at other
          exact other (List.mem_map_of_mem later)
        rw [List.find?_cons_of_neg (by simpa using differs)]
        exact ih distinct later

theorem attributes_perm : ∀ attributes : Attributes,
    (ordinary attributes ++ (namedAttributes xattrFinderinfoName attributes ++
      namedAttributes xattrResourceforkName attributes)).Perm attributes := by
  intro attributes
  induction attributes with
  | nil => exact List.Perm.refl _
  | cons attr attributes ih =>
      by_cases finder : attr.1 = xattrFinderinfoName
      · have other : ¬ attr.1 = xattrResourceforkName := by
          rw [finder]
          decide
        rw [ordinary_cons_fork attributes (Or.inl finder), namedAttributes, namedAttributes,
          List.filter_cons_of_pos (by simpa using finder),
          List.filter_cons_of_neg (by simpa using other), List.cons_append]
        exact List.perm_middle.trans (ih.cons attr)
      · by_cases fork : attr.1 = xattrResourceforkName
        · rw [ordinary_cons_fork attributes (Or.inr fork), namedAttributes, namedAttributes,
            List.filter_cons_of_neg (by simpa using finder),
            List.filter_cons_of_pos (by simpa using fork), ← List.append_assoc]
          refine List.perm_middle.trans ?_
          rw [List.append_assoc]
          exact ih.cons attr
        · rw [ordinary_cons attributes (fun either => either.elim finder fork), namedAttributes,
            namedAttributes, List.filter_cons_of_neg (by simpa using finder),
            List.filter_cons_of_neg (by simpa using fork), List.cons_append]
          exact ih.cons attr

theorem finfoAfter_absent (finfo : List UInt8) : ∀ attributes : Attributes,
    xattrFinderinfoName ∉ attributes.map Prod.fst → finfoAfter finfo attributes = finfo := by
  intro attributes
  induction attributes with
  | nil => exact fun absent => rfl
  | cons attr attributes ih =>
      intro absent
      have other : ¬ attr.1 = xattrFinderinfoName := by
        intro same
        rw [← same] at absent
        exact absent List.mem_cons_self
      rw [finfoAfter, if_neg other]
      exact ih fun member => absent (List.mem_cons_of_mem _ member)

theorem finfoAfter_present (value : List UInt8) : ∀ (attributes : Attributes) finfo,
    (attributes.map Prod.fst).Nodup → (xattrFinderinfoName, value) ∈ attributes →
      finfoAfter finfo attributes = value := by
  intro attributes
  induction attributes with
  | nil =>
      intro finfo distinct member
      cases member
  | cons attr attributes ih =>
      intro finfo distinct member
      obtain ⟨other, distinct⟩ := List.nodup_cons.mp distinct
      rcases List.mem_cons.mp member with same | later
      · rw [← same] at other ⊢
        rw [finfoAfter, if_pos rfl]
        exact finfoAfter_absent value attributes other
      · rw [finfoAfter]
        exact ih _ distinct later

end Names

/-! ## The source as it is packed -/

section Source

variable {library} {source : Source Info} {packer : Host attrMaxSize}
  {acl : Option (List UInt8)}

theorem value_name (attr : List UInt8 × List UInt8) : (source.value library attr).1 = attr.1 := by
  unfold Source.value
  split
  · rfl
  · rfl

theorem map_value_names (attributes : Attributes) :
    (attributes.map (source.value library)).map Prod.fst = attributes.map Prod.fst := by
  rw [List.map_map]
  exact List.map_congr_left fun attr member => value_name attr

theorem expected_listed
    (listed : source.qinfo.isSome → library.xattrName ∈ source.attributes.map Prod.fst) :
    source.expected library = source.attributes.map (source.value library) := by
  unfold Source.expected
  cases given : source.qinfo with
  | some info => exact if_pos (listed (by rw [given]; rfl))
  | none =>
      refine (List.map_id'' (fun attr => ?_) source.attributes).symm
      unfold Source.value
      rw [given, ite_self]

theorem ordinary_append (first second : Attributes) :
    ordinary (first ++ second) = ordinary first ++ ordinary second :=
  List.filter_append first second

theorem ordinary_map_value (attributes : Attributes) :
    ordinary (attributes.map (source.value library)) =
      (ordinary attributes).map (source.value library) := by
  unfold ordinary
  rw [List.filter_map]
  congr 2
  funext attr
  rw [Function.comp_apply, value_name]

theorem listing_packing (packer : Host attrMaxSize) (acl : Option (List UInt8)) :
    Listing (packing library packer source acl) source.attributes :=
  ⟨rfl, rfl, fun _ => rfl, rfl, fun _ _ => rfl, rfl⟩

theorem fgetxattr_source (packable : Packable library source)
    {attr : List UInt8 × List UInt8} (member : attr ∈ source.attributes) :
    (packing library packer source acl).system.fgetxattr attr.1 = .ok attr.2 := by
  change (match source.attributes.find? (fun other => other.1 = attr.1) with
    | some attr => Except.ok attr.2
    | none => .error enoattr) = _
  rw [find?_name attr source.attributes packable.distinct member]

theorem readable_source (packable : Packable library source)
    (text : xattrSecurityName ∈ source.attributes.map Prod.fst → ∃ text, acl = some text) :
    Readable (packing library packer source acl) source.attributes where
  malloc _ := rfl
  toData _ := ⟨_, rfl⟩
  acl := text
  value _ member := fgetxattr_source packable member
  small := packable.values
  finfo attr member finder := (packable.finder attr member finder).1
  qtnName := library.notFork

theorem length_nameBytes (names : List (List UInt8)) :
    (nameBytes names).length = (names.map namelen).sum := by
  induction names with
  | nil => rfl
  | cons name names ih => rw [length_nameBytes_cons, ih, List.map_cons, List.sum_cons]

theorem sum_namelen_le (names : List (List UInt8)) : ∀ entry,
    entry + (names.map namelen).sum ≤ entriesEnd entry names := by
  induction names with
  | nil => exact fun entry => Nat.le_refl entry
  | cons name names ih =>
      intro entry
      have bounds := attrEntryLength_namelen name
      have rest := ih (entry + attrEntryLength (namelen name))
      rw [entriesEnd, List.map_cons, List.sum_cons]
      omega

theorem sum_namedAttributes (name : List UInt8) (attributes : Attributes)
    (distinct : (attributes.map Prod.fst).Nodup) :
    (((namedAttributes name attributes).map Prod.fst).map namelen).sum ≤ namelen name := by
  by_cases present : name ∈ attributes.map Prod.fst
  · obtain ⟨attr, member, same⟩ := List.mem_map.mp present
    rw [← same, namedAttributes_present attr.1 attr.2 attributes distinct member]
    exact Nat.le_refl _
  · rw [namedAttributes_absent present]
    exact Nat.zero_le _

theorem length_nameBytes_source (packable : Packable library source) :
    (nameBytes (source.attributes.map Prod.fst)).length ≤
      entriesEnd 120 ((ordinary source.attributes).map Prod.fst) := by
  have perm := ((attributes_perm source.attributes).map Prod.fst).map namelen
  have finder := sum_namedAttributes xattrFinderinfoName source.attributes packable.distinct
  have fork := sum_namedAttributes xattrResourceforkName source.attributes packable.distinct
  have table := sum_namelen_le ((ordinary source.attributes).map Prod.fst) 120
  have finderLength : namelen xattrFinderinfoName = 21 := by decide
  have forkLength : namelen xattrResourceforkName = 23 := by decide
  rw [length_nameBytes, ← perm.sum_nat]
  simp only [List.map_append, List.sum_append]
  omega

theorem expected_table :
    entriesEnd 120 ((ordinary source.attributes).map Prod.fst) ≤
      entriesEnd 120 ((ordinary (source.expected library)).map Prod.fst) := by
  by_cases listed : source.qinfo.isSome → library.xattrName ∈ source.attributes.map Prod.fst
  · rw [expected_listed listed, ordinary_map_value, map_value_names]
  · obtain ⟨given, unlisted⟩ := Classical.not_imp.mp listed
    obtain ⟨info, same⟩ := Option.isSome_iff_exists.mp given
    unfold Source.expected
    rw [same]
    dsimp only
    rw [if_neg unlisted, ordinary_append, List.map_append, entriesEnd_append]
    exact entriesEnd_le _ _

theorem roomy_source (packable : Packable library source) : Roomy source.attributes := by
  have fits := packable.fits
  have table := @expected_table Info library source
  have short := length_nameBytes_source packable
  refine ⟨fun name member => ?_, by omega, by omega⟩
  obtain ⟨attr, held, same⟩ := List.mem_map.mp member
  obtain ⟨-, bound, nonzero⟩ := packable.names attr held
  rw [← same]
  exact ⟨Nat.succ_le_succ bound, nonzero⟩

theorem packedValue_source {attr : List UInt8 × List UInt8} (other : attr.1 ≠ xattrSecurityName) :
    (attr.1, packedValue (packing library packer source acl) attr.1 attr.2) =
      source.value library attr := by
  have name : (packing library packer source acl).system.qtnXattrName = library.xattrName := rfl
  have qinfo : (packing library packer source acl).qinfo = source.qinfo := rfl
  unfold packedValue Source.value
  rw [if_neg other, name, qinfo]
  cases if attr.1 = library.xattrName then source.qinfo else none with
  | none => rfl
  | some info => rfl

theorem packedValues_source {attributes : Attributes}
    (noAcl : xattrSecurityName ∉ attributes.map Prod.fst) :
    packedValues (packing library packer source acl) attributes =
      ordinary (attributes.map (source.value library)) := by
  rw [packedValues, ordinary_map_value]
  refine List.map_congr_left fun attr member => packedValue_source fun same => ?_
  rw [← same] at noAcl
  exact noAcl (List.mem_map_of_mem (List.mem_filter.mp member).1)

theorem mem_packedValues {attr : List UInt8 × List UInt8} {attributes : Attributes}
    (member : attr ∈ packedValues (packing library packer source acl) attributes) :
    ¬ isForkName attr.1 ∧ (attr.1 = xattrSecurityName → attr.2 = acl.getD [] ++ [0]) := by
  obtain ⟨from', held, same⟩ := List.mem_map.mp member
  have ordinary' := of_decide_eq_true (List.mem_filter.mp held).2
  rw [← same]
  refine ⟨ordinary', fun security => ?_⟩
  exact if_pos security

theorem totalLength_packedValues (text : List UInt8) : ∀ attributes : Attributes,
    (attributes.map Prod.fst).Nodup →
      totalLength (packedValues (packing library packer source (some text)) attributes) ≤
        totalLength (ordinary (attributes.map (source.value library))) + (text.length + 1) := by
  intro attributes
  induction attributes with
  | nil => exact fun distinct => Nat.zero_le _
  | cons attr attributes ih =>
      intro distinct
      obtain ⟨other, distinct⟩ := List.nodup_cons.mp distinct
      have rest := ih distinct
      by_cases fork : isForkName attr.1
      · have forked : isForkName (source.value library attr).1 := by
          rw [value_name]
          exact fork
        rw [packedValues, ordinary_cons_fork attributes fork, List.map_cons,
          ordinary_cons_fork _ forked]
        exact rest
      · have unforked : ¬ isForkName (source.value library attr).1 := by
          rw [value_name]
          exact fork
        have first : packedValues (packing library packer source (some text)) (attr :: attributes) =
            (attr.1, packedValue (packing library packer source (some text)) attr.1 attr.2) ::
              packedValues (packing library packer source (some text)) attributes := by
          rw [packedValues, ordinary_cons attributes fork, List.map_cons]
          rfl
        rw [first, totalLength_cons, List.map_cons, ordinary_cons _ unforked, totalLength_cons]
        by_cases security : attr.1 = xattrSecurityName
        · rw [security] at other
          rw [packedValues_source other]
          have packed : packedValue (packing library packer source (some text)) attr.1 attr.2 =
              text ++ [0] := if_pos security
          dsimp only
          rw [packed, List.length_append, List.length_singleton]
          omega
        · rw [packedValue_source security]
          omega

end Source

/-! ## The target -/

def forkAttribute (data : List UInt8) : Attributes :=
  if data = [] then [] else [(xattrResourceforkName, data)]

def unpacked (run : Packing Info) (attributes : Attributes) (data : List UInt8) : Attributes :=
  (if totalLength (packedValues run attributes) = 0 then []
    else (packedValues run attributes).filterMap (applied library)) ++
    (namedAttributes xattrFinderinfoName attributes ++ forkAttribute data)

def ForkData (attributes : Attributes) (data : List UInt8) : Prop :=
  (xattrResourceforkName ∉ attributes.map Prod.fst ∧ data = []) ∨
    (xattrResourceforkName, data) ∈ attributes

section Target

variable {library} {source : Source Info} {packer : Host attrMaxSize} {host : Host attrMaxHdrSize}
  {acl : Option (List UInt8)}

theorem restored_target (packable : Packable library source) {hdr : FileHdr} {base : Attributes}
    (ordinary' : ∀ attr ∈ base, ¬ isForkName attr.1)
    (finfo : hdr.finfo = finfoAfter emptyfinfo source.attributes) (data : List UInt8) :
    (restored hdr base data).target =
      base ++ (namedAttributes xattrFinderinfoName source.attributes ++ forkAttribute data) := by
  have finder : (withFinderInfo hdr ⟨base, 0⟩).target =
      base ++ namedAttributes xattrFinderinfoName source.attributes := by
    unfold withFinderInfo
    rw [finfo]
    by_cases present : xattrFinderinfoName ∈ source.attributes.map Prod.fst
    · obtain ⟨attr, member, same⟩ := List.mem_map.mp present
      have held : (xattrFinderinfoName, attr.2) ∈ source.attributes := by
        rw [← same]
        exact member
      rw [finfoAfter_present attr.2 source.attributes _ packable.distinct held,
        if_neg (packable.finder attr member same).2,
        namedAttributes_present _ attr.2 source.attributes packable.distinct held]
      refine setAttribute_new base _ _ fun inside => ?_
      obtain ⟨other, inBase, name⟩ := List.mem_map.mp inside
      exact ordinary' other inBase (Or.inl name)
    · rw [finfoAfter_absent _ _ present, if_pos rfl, namedAttributes_absent present, List.append_nil]
  unfold restored withResourceFork forkAttribute
  by_cases empty : data = []
  · rw [if_pos empty, if_pos empty, finder, List.append_nil]
  · rw [if_neg empty, if_neg empty]
    dsimp only
    rw [finder, ← List.append_assoc]
    refine setAttribute_new _ _ _ fun inside => ?_
    obtain ⟨other, held, name⟩ := List.mem_map.mp inside
    rcases List.mem_append.mp held with inBase | inFinder
    · exact ordinary' other inBase (Or.inr name)
    · have finderName := of_decide_eq_true (List.mem_filter.mp inFinder).2
      rw [name] at finderName
      exact absurd finderName (by decide)

theorem copyfilePack_source (packable : Packable library source)
    (listed : source.qinfo.isSome → library.xattrName ∈ source.attributes.map Prod.fst)
    (text : xattrSecurityName ∈ source.attributes.map Prod.fst → ∃ text, acl = some text)
    (room : entriesEnd 120 ((ordinary source.attributes).map Prod.fst) +
      totalLength (packedValues (packing library packer source acl) source.attributes) ≤
        attrMaxSize) :
    ∃ hdr data, PackedHdr (packing library packer source acl) source.attributes hdr ∧
      ForkData source.attributes data ∧
      ((intMax < data.length ∧
          copyfilePack (packing library packer source acl) [] = .next (-1, [])) ∨
        (data.length ≤ intMax ∧ copyfilePack (packing library packer source acl) [] =
          .next (0, writtenBytes packer { hdr with rsrcLength := data.length } ++ data))) := by
  have inTable : (packing library packer source acl).qinfo.isSome →
      (packing library packer source acl).system.qtnXattrName ∈
        (ordinary source.attributes).map Prod.fst := by
    intro given
    rw [ordinary_names]
    exact List.mem_filter.mpr ⟨listed given, decide_eq_true library.notFork⟩
  obtain ⟨hdr, packed, cases'⟩ := copyfilePack_listed (listing_packing packer acl)
    (readable_source packable text) (roomy_source packable) room inTable
  rcases cases' with ⟨noFork, packs⟩ | ⟨fork, large, fails⟩ | ⟨fork, data, found, small, packs⟩
  · have same : { hdr with rsrcLength := 0 } = hdr := by rw [← packed.noFork]
    refine ⟨hdr, [], packed, Or.inl ⟨noFork, rfl⟩, Or.inr ⟨Nat.zero_le _, ?_⟩⟩
    rw [packs, List.append_nil, List.length_nil, same]
    rfl
  · obtain ⟨attr, member, same⟩ := List.mem_map.mp fork
    have read := @fgetxattr_source Info library source packer acl packable attr member
    rw [same] at read
    refine ⟨hdr, attr.2, packed, Or.inr ?_, Or.inl ⟨large attr.2 read, fails⟩⟩
    rw [← same]
    exact member
  · obtain ⟨attr, member, same⟩ := List.mem_map.mp fork
    have read := @fgetxattr_source Info library source packer acl packable attr member
    rw [same, found] at read
    cases read
    refine ⟨hdr, attr.2, packed, Or.inr ?_, Or.inr ⟨small, packs⟩⟩
    rw [← same]
    exact member

theorem distinct_packedValues (packable : Packable library source) :
    ((packedValues (packing library packer source acl) source.attributes).map Prod.fst).Nodup := by
  rw [packedValues_names, ordinary_names]
  exact packable.distinct.filter _

theorem filterMap_unforked :
    ∀ attr ∈ (packedValues (packing library packer source acl) source.attributes).filterMap
      (applied library), ¬ isForkName attr.1 := by
  intro attr member
  obtain ⟨from', held, sets⟩ := List.mem_filterMap.mp member
  rw [applied_name sets]
  exact (mem_packedValues held).1

/-- The unpacking of the packed file comes to its end with the target that is told, and it does
come to it if header, entries and values fit what is read of the file. -/
theorem copyfileUnpack_source (packable : Packable library source)
    (room : entriesEnd 120 ((ordinary source.attributes).map Prod.fst) +
      totalLength (packedValues (packing library packer source acl) source.attributes) ≤
        attrMaxSize) {hdr : FileHdr} {data file : List UInt8}
    (packed : PackedHdr (packing library packer source acl) source.attributes hdr)
    (small : data.length ≤ intMax)
    (written : file = writtenBytes packer { hdr with rsrcLength := data.length } ++ data) :
    (∀ result, copyfileUnpack (unpacking host library file) ⟨[], 0⟩ = .next result →
      result.2.target =
        unpacked library (packing library packer source acl) source.attributes data) ∧
    (entriesEnd 120 ((ordinary source.attributes).map Prod.fst) +
        totalLength (packedValues (packing library packer source acl) source.attributes) ≤
          attrMaxHdrSize →
      ∃ after, copyfileUnpack (unpacking host library file) ⟨[], 0⟩ = .next (0, after)) := by
  have short : data.length < 2 ^ 32 := by
    unfold intMax at small
    omega
  have laid := packed.laid.withLength data.length
  have start := entriesEnd_le ((ordinary source.attributes).map Prod.fst) 120
  unfold unpacked
  rcases Nat.eq_zero_or_pos (totalLength
    (packedValues (packing library packer source acl) source.attributes)) with none | some'
  · obtain ⟨finder, offset⟩ := packed.without none
    have unpacks := @copyfileUnpack_without Info host packer library _ file _ laid data written
      (Nat.le_of_eq finder) short (by dsimp only; omega) rfl
    rw [unpacks, if_pos none]
    refine ⟨fun result same => ?_, fun fits => ⟨_, rfl⟩⟩
    cases same
    exact restored_target packable (fun attr member => by cases member) packed.finfo data
  · obtain ⟨offset, finder⟩ := packed.withData some'
    have names := packedValues_names (packing library packer source acl) source.attributes
    have entries := packed.entries
    have ends := congrArg (entriesEnd 120) names
    unfold attrMaxSize at room
    rw [← names] at laid entries offset
    obtain ⟨partly, wholly⟩ := @copyfileUnpack_restores Info host packer library _ file _ data _ laid
      written (by unfold finderinfosize; dsimp only; omega) short offset
      (by unfold attrMaxSize; dsimp only; omega) (by decide) rfl entries
      (distinct_packedValues packable)
    rw [if_neg (by omega)]
    constructor
    · intro result unpacks
      rw [partly result unpacks]
      exact restored_target packable filterMap_unforked packed.finfo data
    · intro fits
      refine ⟨_, wholly (fun attr member => ?_) ?_⟩
      · have inNames : attr.1 ∈ (ordinary source.attributes).map Prod.fst := by
          rw [← names]
          exact List.mem_map_of_mem member
        obtain ⟨held, inside, same⟩ := List.mem_map.mp inNames
        rw [← same]
        exact (packable.names held (List.mem_filter.mp inside).1).1
      · dsimp only
        omega

theorem roundTrips_unpacked (host : Host attrMaxHdrSize) (packable : Packable library source)
    (listed : source.qinfo.isSome → library.xattrName ∈ source.attributes.map Prod.fst)
    (text : xattrSecurityName ∈ source.attributes.map Prod.fst → ∃ text, acl = some text)
    (room : entriesEnd 120 ((ordinary source.attributes).map Prod.fst) +
      totalLength (packedValues (packing library packer source acl) source.attributes) ≤
        attrMaxSize) :
    ∃ data, ForkData source.attributes data ∧
      (RoundTrips library packer host source acl → data.length ≤ intMax ∧
        (unpacked library (packing library packer source acl) source.attributes data).Perm
          (source.expected library)) ∧
      (data.length ≤ intMax →
        entriesEnd 120 ((ordinary source.attributes).map Prod.fst) +
          totalLength (packedValues (packing library packer source acl) source.attributes) ≤
            attrMaxHdrSize →
        (unpacked library (packing library packer source acl) source.attributes data).Perm
          (source.expected library) → RoundTrips library packer host source acl) := by
  obtain ⟨hdr, data, packed, fork, ⟨large, fails⟩ | ⟨small, packs⟩⟩ :=
    copyfilePack_source packable listed text room
  · refine ⟨data, fork, fun trips => ?_, fun fits => absurd fits (Nat.not_le.mpr large)⟩
    obtain ⟨file, after, packs, -⟩ := trips
    rw [fails] at packs
    cases packs
  · obtain ⟨partly, wholly⟩ := @copyfileUnpack_source Info library source packer host acl packable
      room hdr data _ packed small rfl
    refine ⟨data, fork, fun trips => ⟨small, ?_⟩, fun fits room perm => ?_⟩
    · obtain ⟨file, after, packs', unpacks, perm⟩ := trips
      rw [packs] at packs'
      cases packs'
      rw [← partly _ unpacks]
      exact perm
    · obtain ⟨after, unpacks⟩ := wholly room
      refine ⟨_, after, packs, unpacks, ?_⟩
      rw [partly _ unpacks]
      exact perm

/-! ## The condition -/

theorem mem_unpacked {attributes : Attributes} {data : List UInt8} {run : Packing Info}
    {attr : List UInt8 × List UInt8} (member : attr ∈ unpacked library run attributes data) :
    (0 < totalLength (packedValues run attributes) ∧
      attr ∈ (packedValues run attributes).filterMap (applied library)) ∨
    attr.1 = xattrFinderinfoName ∨ (attr.1 = xattrResourceforkName ∧ data ≠ []) := by
  unfold unpacked at member
  rcases List.mem_append.mp member with base | other
  · left
    split at base
    · cases base
    next some' => exact ⟨Nat.pos_of_ne_zero some', base⟩
  · right
    rcases List.mem_append.mp other with finder | fork
    · exact Or.inl (of_decide_eq_true (List.mem_filter.mp finder).2)
    · unfold forkAttribute at fork
      split at fork
      · cases fork
      next some' =>
        rw [List.mem_singleton.mp fork]
        exact Or.inr ⟨rfl, some'⟩

theorem applied_other {attr : List UInt8 × List UInt8} (other : attr.1 ≠ library.xattrName) :
    applied library attr = some attr := if_neg other

theorem listed_of_roundTrips (packable : Packable library source)
    (trips : RoundTrips library packer host source (some [])) :
    source.qinfo.isSome → library.xattrName ∈ source.attributes.map Prod.fst := by
  intro given
  by_contra unlisted
  obtain ⟨info, qinfo⟩ := Option.isSome_iff_exists.mp given
  obtain ⟨file, after, packs, unpacks, perm⟩ := trips
  have bounded : Bounded (packing library packer source (some [])) := by
    constructor
    · intro text same
      rw [← Option.some.inj same]
      decide
    · intro info data same serial
      rw [← Option.some.inj serial]
      exact packable.qinfo info same
  obtain ⟨hdr, rest, laid, written⟩ := copyfilePack_drifts (listing_packing packer (some []))
    (roomy_source packable) bounded packs
  have expected : (library.xattrName, library.toData info) ∈ source.expected library := by
    unfold Source.expected
    rw [qinfo]
    dsimp only
    rw [if_neg unlisted]
    exact List.mem_append_right _ (List.mem_singleton.mpr rfl)
  rcases copyfileUnpack_names host library laid written unpacks _ (perm.mem_iff.mpr expected) with
    table | fork
  · rw [ordinary_names] at table
    exact unlisted (List.mem_filter.mp table).1
  · exact library.notFork fork

theorem value_other {attr : List UInt8 × List UInt8} (other : attr.1 ≠ library.xattrName) :
    source.value library attr = attr := by
  unfold Source.value
  rw [if_neg other]

theorem noAcl_of_roundTrips (packable : Packable library source)
    (listed : source.qinfo.isSome → library.xattrName ∈ source.attributes.map Prod.fst)
    (trips : ∀ acl, RoundTrips library packer host source acl) :
    xattrSecurityName ∉ source.attributes.map Prod.fst := by
  intro present
  obtain ⟨attr, member, name⟩ := List.mem_map.mp present
  obtain ⟨text, short, differs⟩ : ∃ text : List UInt8, text.length ≤ 1 ∧ text ++ [0] ≠ attr.2 := by
    by_cases same : attr.2 = [0]
    · refine ⟨[1], Nat.le_refl 1, ?_⟩
      rw [same]
      decide
    · exact ⟨[], Nat.zero_le 1, fun equal => same equal.symm⟩
  have total := @totalLength_packedValues Info library source packer text source.attributes
    packable.distinct
  have fits := packable.fits
  rw [expected_listed listed, ordinary_map_value, map_value_names, ← ordinary_map_value] at fits
  unfold attrMaxHdrSize at fits
  obtain ⟨data, -, back, -⟩ := @roundTrips_unpacked Info library source packer (some text) host
    packable listed (fun _ => ⟨text, rfl⟩) (by unfold attrMaxSize; omega)
  have other : attr.1 ≠ library.xattrName := by
    rw [name]
    exact library.notSecurity.symm
  have expected : attr ∈ source.expected library := by
    rw [expected_listed listed, ← value_other other]
    exact List.mem_map_of_mem member
  rcases mem_unpacked ((back (trips (some text))).2.mem_iff.mpr expected) with
    ⟨-, table⟩ | finder | ⟨fork, -⟩
  · obtain ⟨from', held, sets⟩ := List.mem_filterMap.mp table
    have sameName := applied_name sets
    rw [applied_other (by rw [← sameName]; exact other)] at sets
    rw [Option.some.inj sets] at held
    exact differs ((mem_packedValues held).2 name).symm
  · rw [name] at finder
    exact absurd finder (by decide)
  · rw [name] at fork
    exact absurd fork (by decide)

theorem ordinary_expected
    (listed : source.qinfo.isSome → library.xattrName ∈ source.attributes.map Prod.fst)
    (noAcl : xattrSecurityName ∉ source.attributes.map Prod.fst) :
    packedValues (packing library packer source acl) source.attributes =
      ordinary (source.expected library) := by
  rw [packedValues_source noAcl, expected_listed listed]

theorem table_expected
    (listed : source.qinfo.isSome → library.xattrName ∈ source.attributes.map Prod.fst) :
    entriesEnd 120 ((ordinary (source.expected library)).map Prod.fst) =
      entriesEnd 120 ((ordinary source.attributes).map Prod.fst) := by
  rw [expected_listed listed, ordinary_map_value, map_value_names]

theorem totalLength_eq_zero_iff (attributes : Attributes) :
    totalLength attributes = 0 ↔ ∀ attr ∈ attributes, attr.2 = [] := by
  rw [totalLength, List.sum_eq_zero_iff_forall_eq_nat, List.forall_mem_map]
  exact forall₂_congr fun attr member => List.length_eq_zero_iff

theorem eq_of_name {attributes : Attributes} (distinct : (attributes.map Prod.fst).Nodup)
    {first second : List UInt8 × List UInt8} (one : first ∈ attributes) (two : second ∈ attributes)
    (name : first.1 = second.1) : first = second :=
  List.inj_on_of_nodup_map distinct one two name

theorem restorable_of_roundTrips (packable : Packable library source)
    (trips : ∀ acl, RoundTrips library packer host source acl) : Restorable library source := by
  have listed := listed_of_roundTrips packable (trips (some []))
  have noAcl := noAcl_of_roundTrips packable listed trips
  have values := @ordinary_expected Info library source packer none listed noAcl
  have fits := packable.fits
  rw [table_expected listed, ← values] at fits
  unfold attrMaxHdrSize at fits
  obtain ⟨data, fork, back, -⟩ := @roundTrips_unpacked Info library source packer none host packable
    listed (fun present => absurd present noAcl) (by unfold attrMaxSize; omega)
  obtain ⟨small, perm⟩ := back (trips none)
  rw [unpacked, values] at perm
  have inTarget : ∀ attr ∈ source.expected library, ¬ isForkName attr.1 →
      0 < totalLength (ordinary (source.expected library)) ∧
        attr ∈ (ordinary (source.expected library)).filterMap (applied library) := by
    intro attr member unforked
    have held := perm.mem_iff.mpr member
    rw [← values] at held ⊢
    rcases mem_unpacked held with table | finder | ⟨fork, -⟩
    · exact table
    · exact absurd (Or.inl finder) unforked
    · exact absurd (Or.inr fork) unforked
  refine ⟨noAcl, listed, fun none' attr member name => ?_, fun some' => ?_, ?_⟩
  · have same : source.expected library = source.attributes := by
      unfold Source.expected
      rw [none']
    have unforked : ¬ isForkName attr.1 := by
      rw [name]
      exact library.notFork
    obtain ⟨-, table⟩ := inTarget attr (by rw [same]; exact member) unforked
    obtain ⟨from', held, sets⟩ := List.mem_filterMap.mp table
    rw [same] at held
    have inSource := (List.mem_filter.mp held).1
    rw [← eq_of_name packable.distinct member inSource (applied_name sets), applied,
      if_pos name] at sets
    obtain ⟨info, read, written⟩ := Option.map_eq_some_iff.mp sets
    rw [read]
    exact congrArg some (congrArg Prod.snd written)
  · by_contra empty
    obtain ⟨attr, member⟩ := List.exists_mem_of_ne_nil _ some'
    obtain ⟨inside, unforked⟩ := List.mem_filter.mp member
    obtain ⟨positive, -⟩ := inTarget attr inside (of_decide_eq_true unforked)
    refine Nat.ne_of_gt positive ((totalLength_eq_zero_iff _).mpr fun other held => ?_)
    by_contra some''
    exact empty ⟨other, held, some''⟩
  · intro attr member name
    have held : (xattrResourceforkName, attr.2) ∈ source.attributes := by
      rw [← name]
      exact member
    have same : data = attr.2 := by
      rcases fork with ⟨absent, -⟩ | present
      · exact absurd (List.mem_map_of_mem held) absent
      · exact congrArg Prod.snd (eq_of_name packable.distinct present held rfl)
    rw [← same]
    refine ⟨fun empty => ?_, small⟩
    have other : attr.1 ≠ library.xattrName := by
      rw [name]
      intro equal
      exact library.notFork (Or.inr equal.symm)
    have expected : attr ∈ source.expected library := by
      rw [expected_listed listed, ← value_other other]
      exact List.mem_map_of_mem member
    have inList := perm.mem_iff.mpr expected
    rw [← values] at inList
    rcases mem_unpacked inList with ⟨-, table⟩ | finder | ⟨-, some'⟩
    · exact filterMap_unforked attr table (Or.inr name)
    · rw [name] at finder
      exact absurd finder (by decide)
    · exact some' empty

theorem namedAttributes_expected (name : List UInt8) (other : name ≠ library.xattrName)
    (attributes : Attributes) :
    namedAttributes name (attributes.map (source.value library)) =
      namedAttributes name attributes := by
  have same : ∀ attr ∈ namedAttributes name attributes, source.value library attr = attr := by
    intro attr member
    have equal := of_decide_eq_true (List.mem_filter.mp member).2
    exact value_other (by rw [equal]; exact other)
  have filtered : namedAttributes name (attributes.map (source.value library)) =
      (namedAttributes name attributes).map (source.value library) := by
    unfold namedAttributes
    rw [List.filter_map]
    congr 2
    funext attr
    rw [Function.comp_apply, value_name]
  rw [filtered, List.map_congr_left same, List.map_id']

theorem applied_expected (restorable : Restorable library source) :
    ∀ attr ∈ source.expected library, applied library attr = some attr := by
  intro attr member
  rw [expected_listed restorable.listed] at member
  obtain ⟨from', held, same⟩ := List.mem_map.mp member
  by_cases quarantine : from'.1 = library.xattrName
  · unfold Source.value at same
    rw [if_pos quarantine] at same
    cases given : source.qinfo with
    | some info =>
        rw [given] at same
        rw [← same, applied, if_pos quarantine, library.ofData_toData]
        rfl
    | none =>
        rw [given] at same
        have understood := restorable.quarantine given from' held quarantine
        obtain ⟨info, read, written⟩ := Option.map_eq_some_iff.mp understood
        dsimp only at same
        rw [← same, applied, if_pos quarantine, read, Option.map_some, written]
  · rw [value_other quarantine] at same
    rw [← same]
    exact applied_other quarantine

theorem roundTrips_of_restorable (packable : Packable library source)
    (restorable : Restorable library source) (packer : Host attrMaxSize)
    (host : Host attrMaxHdrSize) (acl : Option (List UInt8)) :
    RoundTrips library packer host source acl := by
  have listed := restorable.listed
  have noAcl := restorable.noAcl
  have values := @ordinary_expected Info library source packer acl listed noAcl
  have fits := packable.fits
  rw [table_expected listed, ← values] at fits
  have room := fits
  unfold attrMaxHdrSize at room
  obtain ⟨data, fork, -, forth⟩ := @roundTrips_unpacked Info library source packer acl host packable
    listed (fun present => absurd present noAcl) (by unfold attrMaxSize; omega)
  have all : (ordinary (source.expected library)).filterMap (applied library) =
      ordinary (source.expected library) := by
    have same : ∀ attr ∈ ordinary (source.expected library), applied library attr = some attr :=
      fun attr member => applied_expected restorable attr (List.mem_filter.mp member).1
    rw [List.filterMap_congr same, List.filterMap_some]
  have base : (if totalLength (ordinary (source.expected library)) = 0 then []
      else ordinary (source.expected library)) = ordinary (source.expected library) := by
    split
    next none' =>
      by_contra nonempty
      obtain ⟨attr, member, some'⟩ := restorable.someValue fun empty => nonempty empty.symm
      exact some' ((totalLength_eq_zero_iff _).mp none' attr member)
    next => rfl
  have finderName : xattrFinderinfoName ≠ library.xattrName :=
    fun equal => library.notFork (Or.inl equal.symm)
  have forkName : xattrResourceforkName ≠ library.xattrName :=
    fun equal => library.notFork (Or.inr equal.symm)
  have forks : data.length ≤ intMax ∧
      forkAttribute data = namedAttributes xattrResourceforkName source.attributes := by
    unfold forkAttribute
    rcases fork with ⟨absent, none'⟩ | present
    · rw [none', if_pos rfl, namedAttributes_absent absent]
      exact ⟨Nat.zero_le _, rfl⟩
    · obtain ⟨some', small⟩ := restorable.fork _ present rfl
      rw [if_neg some', namedAttributes_present _ data source.attributes packable.distinct present]
      exact ⟨small, rfl⟩
  refine forth forks.1 fits ?_
  have perm := attributes_perm (source.expected library)
  rw [unpacked, values, all, base, forks.2]
  have finders := @namedAttributes_expected Info library source xattrFinderinfoName finderName
    source.attributes
  have forked := @namedAttributes_expected Info library source xattrResourceforkName forkName
    source.attributes
  rw [← expected_listed listed] at finders forked
  rw [← finders, ← forked]
  exact perm

end Target

/-! ## The round trip -/

variable {library} in
/-- Whatever access control list the source may have, packing and unpacking restore its attributes
exactly when it is restorable. -/
theorem copyfile_roundTrips_iff {source : Source Info} (packable : Packable library source)
    (packer : Host attrMaxSize) (host : Host attrMaxHdrSize) :
    (∀ acl, RoundTrips library packer host source acl) ↔ Restorable library source :=
  ⟨restorable_of_roundTrips packable,
    fun restorable acl => roundTrips_of_restorable packable restorable packer host acl⟩

def plainQuarantine : Quarantine (List UInt8) where
  xattrName := ascii "com.apple.quarantine"
  toData info := info
  ofData := some
  ofData_toData info := rfl
  notFork := by decide
  notSecurity := by decide

def bigPacker : Host attrMaxSize := ⟨.ilp32, .big, 12288, by decide, by decide⟩

def quarantined : Source (List UInt8) where
  attributes :=
    [(ascii "user.note", [104, 105]), (xattrFinderinfoName, 84 :: List.replicate 31 0),
      (plainQuarantine.xattrName, ascii "0001;"), (xattrResourceforkName, [1, 0, 2]),
      (ascii "user.flag", [])]
  qinfo := some (ascii "0003;")
  inode := 7

theorem quarantined_packable : Packable plainQuarantine quarantined := by
  have plain : ∀ attr ∈ quarantined.attributes,
      attr.1 ≠ [] ∧ attr.1.length ≤ xattrMaxnamelen ∧ 0 ∉ attr.1 := by decide +kernel
  constructor
  · decide
  · intro attr member
    obtain ⟨nonempty, short, noNul⟩ := plain attr member
    refine ⟨nonempty, short, fun byte inside zero => noNul ?_⟩
    rw [← zero]
    exact inside
  · decide +kernel
  · decide
  · intro info given
    rw [← Option.some.inj given]
    decide
  · decide

theorem copyfile_roundTrips_quarantined :
    Restorable plainQuarantine quarantined ∧
      ∀ acl, RoundTrips plainQuarantine bigPacker littleHost quarantined acl := by
  have restorable : Restorable plainQuarantine quarantined := by
    constructor
    · decide
    · decide
    · rintro ⟨⟩
    · decide +kernel
    · decide +kernel
  exact ⟨restorable,
    (copyfile_roundTrips_iff quarantined_packable bigPacker littleHost).mpr restorable⟩

def flagged : Source (List UInt8) := ⟨[(ascii "user.flag", [])], none, 7⟩

theorem copyfile_roundTrips_loses :
    Packable plainQuarantine flagged ∧
      ¬ RoundTrips plainQuarantine bigPacker littleHost flagged none := by
  have packable : Packable plainQuarantine flagged := by
    constructor
    · decide
    · decide +kernel
    · decide
    · decide
    · exact fun info given => by cases given
    · decide
  refine ⟨packable, fun trips => ?_⟩
  obtain ⟨data, fork, back, -⟩ := @roundTrips_unpacked _ plainQuarantine flagged bigPacker none
    littleHost packable (fun given => by cases given) (fun present => absurd present (by decide))
    (by decide)
  have none' : data = [] := by
    rcases fork with ⟨-, empty⟩ | present
    · exact empty
    · have forked : xattrResourceforkName ∈ flagged.attributes.map Prod.fst :=
        List.mem_map_of_mem present
      exact absurd forked (by decide)
  have length := (back trips).2.length_eq
  rw [none'] at length
  exact absurd length (by decide)

end LegacySupport.Copyfile
