import LegacySupport.PackWrite

/-!
The file that `copyfile_pack` writes: the header, big-endian, and the resource fork behind it.
-/

namespace LegacySupport.Copyfile

open Bytes CInt CheckedMemory

variable {Info : Type}

/-! ## The header as it is written -/

def writtenMemory (host : Host attrMaxSize) (hdr : FileHdr) : Memory :=
  attrhdrInHostOrder host (adhdrInHostOrder host (hdr.memory host))

def writtenBytes (host : Host attrMaxSize) (hdr : FileHdr) : List UInt8 :=
  bytesAt (writtenMemory host hdr) host.buffer hdr.rsrcOffset

structure Tabled (names : List (List UInt8)) (hdr : FileHdr) : Prop where
  finfo : hdr.finfo.length = 32
  counted : Counted hdr names
  inside : entriesEnd 120 names ≤ attrMaxHdrSize
  names : NamesAt hdr.area 120 names

theorem memory_area (host : Host attrMaxSize) (hdr : FileHdr) (index : Nat) (behind : 120 ≤ index) :
    hdr.area (0 + index) = hdr.memory host (host.buffer + index) := by
  rw [FileHdr.memory, if_neg (by omega), Nat.add_sub_cancel_left, Nat.zero_add]

theorem attrhdrInHostOrder_below {size : Nat} (host : Host size) (memory : Memory) (address : Nat)
    (below : address < host.buffer + 84) : attrhdrInHostOrder host memory address = memory address := by
  unfold attrhdrInHostOrder
  cases host.order with
  | big => rfl
  | little =>
      dsimp only
      rw [attrEntriesReversed_below _ _ _ _ (by omega)]
      exact attrhdrFields_outside memory host.buffer address (Or.inl below)

section Written

variable {host : Host attrMaxSize} {hdr : FileHdr} {names : List (List UInt8)}

theorem adhdrAt_memory (finfo : hdr.finfo.length = 32) :
    AdhdrAt host.order (hdr.memory host) host.buffer hdr :=
  ⟨adhdrValues_memory finfo, finfo_memory finfo⟩

theorem attrhdrAt_swapped (tabled : Tabled names hdr) :
    AttrhdrAt host.order (adhdrInHostOrder host (hdr.memory host)) host.buffer hdr names := by
  have attrhdr : AttrhdrAt host.order (hdr.memory host) host.buffer hdr names := by
    refine ⟨attrhdrValues_memory tabled.finfo, ?_⟩
    have named := tabled.names
    rw [← Nat.zero_add 120] at named
    exact namesAt_copied names 120 (fun index lower upper => memory_area host hdr index lower) named
  exact attrhdr.copied (Nat.le_refl _) fun index lower upper =>
    (adhdrInHostOrder_outside host _ _ (by omega)).symm

theorem adhdrAt_written (tabled : Tabled names hdr) :
    AdhdrAt .big (writtenMemory host hdr) host.buffer hdr := by
  have swapped := (@adhdrAt_memory host hdr tabled.finfo).swapped
  rw [turned_order] at swapped
  exact swapped.copied fun index bound => (attrhdrInHostOrder_below host _ _ (by omega)).symm

theorem attrhdrAt_written (tabled : Tabled names hdr) :
    AttrhdrAt .big (writtenMemory host hdr) host.buffer hdr names := by
  have swapped := (@attrhdrAt_swapped host hdr names tabled).swapped tabled.counted
  rw [turned_order] at swapped
  exact swapped

theorem entriesAt_written {attributes : Attributes} {limit offset : Nat}
    (tabled : Tabled (attributes.map Prod.fst) hdr)
    (before : entriesEnd 120 (attributes.map Prod.fst) ≤ offset)
    (inside : entriesEnd 120 (attributes.map Prod.fst) ≤ limit)
    (entries : EntriesAt host.order hdr.area 0 limit 120 offset attributes) :
    EntriesAt .big (writtenMemory host hdr) host.buffer limit (host.buffer + 120) offset
      attributes := by
  have ends := entriesEnd_le (attributes.map Prod.fst) 120
  have same : ∀ index, 120 ≤ index → index < limit →
      hdr.area (0 + index) = adhdrInHostOrder host (hdr.memory host) (host.buffer + index) := by
    intro index lower upper
    rw [adhdrInHostOrder_outside host _ _ (by omega)]
    exact memory_area host hdr index lower
  rw [← Nat.zero_add 120] at entries
  have placed := entriesAt_copied (Nat.le_refl limit) same attributes 120 offset (Nat.le_refl 120)
    (by omega) inside entries
  have swapped := entriesAt_inHostOrder tabled.counted (attrhdrAt_swapped tabled) before inside
    placed
  rw [turned_order] at swapped
  exact swapped

theorem writeHeader_tabled (run : Packing Info) (tabled : Tabled names hdr)
    (writes : ∀ count offset, run.system.writeFails count offset = false)
    (stat : run.system.copyfileStat = 0) (dst : List UInt8) (error : Int) :
    writeHeader run hdr error dst = .next (error, pwrite dst (writtenBytes run.host hdr) 0) := by
  have holds : Holds run.host ⟨run.host.buffer, attrMaxSize⟩ := ⟨rfl, Nat.le_refl _⟩
  have smaller : attrMaxHdrSize ≤ attrMaxSize := by decide
  have inside := tabled.inside
  unfold writeHeader
  dsimp only
  rw [swapAdhdr_header Unit holds (show 82 ≤ attrMaxSize by decide)
    (adhdrAt_memory tabled.finfo), bind_next,
    swapAttrhdr_header Unit holds tabled.counted (by dsimp only; omega) (attrhdrAt_swapped tabled),
    bind_next, if_neg (by rw [writes]; exact Bool.false_ne_true), stat]
  by_cases zero : error = 0
  · rw [if_neg (not_not.mpr zero), zero]
    rfl
  · rw [if_pos zero]
    rfl

theorem Tabled.withLength (tabled : Tabled names hdr) (length : Nat) :
    Tabled names { hdr with rsrcLength := length } where
  finfo := tabled.finfo
  counted := ⟨tabled.counted.count, tabled.counted.few, tabled.counted.named⟩
  inside := tabled.inside
  names := tabled.names

theorem length_writtenBytes : (writtenBytes host hdr).length = hdr.rsrcOffset :=
  length_bytesAt _ _ _

end Written

/-! ## The file behind the passes -/

theorem pwrite_behind (data bytes : List UInt8) (nonempty : bytes ≠ []) :
    pwrite (pwrite [] data bytes.length) bytes 0 = bytes ++ data := by
  rw [pwrite, if_neg nonempty, pwrite]
  split
  next empty => simp [empty]
  next some' => simp

/-- The calls succeed, and give the attributes and no access control list is asked for. -/
structure Listing (run : Packing Info) (attributes : Attributes) : Prop where
  acl : run.flags.acl = false
  xattr : run.flags.xattr = true
  malloc : ∀ count, run.system.malloc count = true
  listed : run.system.flistxattr = .ok (attributes.map Prod.fst)
  writes : ∀ count offset, run.system.writeFails count offset = false
  stat : run.system.copyfileStat = 0

def writePacked (run : Packing Info) (packed : Packed) (dst : List UInt8) :
    Outcome Unit (Int × List UInt8) :=
  let hdr := packed.hdr.finish
  if packed.hasrsrcfork then
    match packRsrcfork run hdr dst with
    | (0, hdr, dst) => writeHeader run hdr 0 dst
    | (error, _, dst) => return (error, dst)
  else writeHeader run hdr packed.error dst

section Passes

variable {run : Packing Info} {attributes : Attributes}

theorem nameList_listing (listing : Listing run attributes)
    (short : (nameBytes (attributes.map Prod.fst)).length ≤ attrMaxHdrSize) :
    nameList run = ⟨0, nameBytes (attributes.map Prod.fst),
      (nameBytes (attributes.map Prod.fst)).length⟩ := by
  have fits : ¬ attrMaxHdrSize - 0 < (nameBytes (attributes.map Prod.fst)).length := by omega
  unfold nameBytes at fits ⊢
  unfold nameList
  simp only [listing.acl, listing.xattr, listing.listed, Bool.false_eq_true, false_and, if_false,
    not_true_eq_false, List.take_zero, List.nil_append, if_neg fits]
  simp

theorem copyfilePack_passes (listing : Listing run attributes)
    (short : (nameBytes (attributes.map Prod.fst)).length ≤ attrMaxHdrSize) {collected : Collected}
    (pass : collectNames run (nameBytes (attributes.map Prod.fst)).length
      (nameBytes (attributes.map Prod.fst)) (nameBytes (attributes.map Prod.fst)).length
      ⟨FileHdr.initial run.inode, 120, false⟩ = some collected) (dst : List UInt8) :
    copyfilePack run dst =
      collectData run (nameBytes (attributes.map Prod.fst)).length
          (withQuarantine run (nameList run) collected.seenq)
          (nameBytes (attributes.map Prod.fst)).length ⟨collected.hdr, 120, 0, false, false⟩ >>=
        fun packed => writePacked run packed dst := by
  have list := nameList_listing listing short
  unfold copyfilePack
  rw [if_neg (by simp [listing.malloc]), list]
  dsimp only
  rw [Int.toNat_natCast, pass]
  rfl

theorem packRsrcfork_cases (listing : Listing run attributes) (hdr : FileHdr) :
    ((∀ data, run.system.fgetxattr xattrResourceforkName = .ok data → intMax < data.length) ∧
        packRsrcfork run hdr [] = (-1, hdr, [])) ∨
      ∃ data, run.system.fgetxattr xattrResourceforkName = .ok data ∧ data.length ≤ intMax ∧
        packRsrcfork run hdr [] =
          (0, { hdr with rsrcLength := data.length }, pwrite [] data hdr.rsrcOffset) := by
  unfold packRsrcfork
  cases run.system.fgetxattr xattrResourceforkName with
  | error error =>
      refine Or.inl ⟨fun data found => ?_, rfl⟩
      cases found
  | ok data =>
      dsimp only
      by_cases large : intMax < data.length
      · rw [if_pos large]
        refine Or.inl ⟨fun other found => ?_, rfl⟩
        rw [← Except.ok.inj found]
        exact large
      · have bound : data.length % 2 ^ 32 = data.length := by
          unfold intMax at large
          omega
        refine Or.inr ⟨data, rfl, by omega, ?_⟩
        rw [if_neg large, if_neg (by simp [listing.malloc]), if_neg (by simp [listing.writes]), bound]

theorem writePacked_cases (listing : Listing run attributes) {names : List (List UInt8)}
    {packed : Packed} (tabled : Tabled names packed.hdr.finish)
    (offset : 0 < packed.hdr.finish.rsrcOffset) :
    (packed.hasrsrcfork = false ∧ writePacked run packed [] =
      .next (packed.error, writtenBytes run.host packed.hdr.finish)) ∨
    (packed.hasrsrcfork = true ∧
      (∀ data, run.system.fgetxattr xattrResourceforkName = .ok data → intMax < data.length) ∧
      writePacked run packed [] = .next (-1, [])) ∨
    (packed.hasrsrcfork = true ∧ ∃ data,
      run.system.fgetxattr xattrResourceforkName = .ok data ∧ data.length ≤ intMax ∧
      writePacked run packed [] = .next (0, writtenBytes run.host
        { packed.hdr.finish with rsrcLength := data.length } ++ data)) := by
  have nonempty : ∀ hdr : FileHdr, hdr.rsrcOffset = packed.hdr.finish.rsrcOffset →
      writtenBytes run.host hdr ≠ [] := by
    intro hdr same empty
    have length := @length_writtenBytes run.host hdr
    rw [empty, same, List.length_nil] at length
    omega
  unfold writePacked
  dsimp only
  cases forked : packed.hasrsrcfork with
  | false =>
      left
      rw [if_neg Bool.false_ne_true,
        writeHeader_tabled run tabled listing.writes listing.stat [] packed.error]
      have written := pwrite_behind [] _ (nonempty packed.hdr.finish rfl)
      rw [List.append_nil] at written
      exact ⟨rfl, congrArg (fun file => Outcome.next (packed.error, file)) written⟩
  | true =>
      right
      rw [if_pos rfl]
      rcases packRsrcfork_cases listing packed.hdr.finish with
        ⟨large, failed⟩ | ⟨data, fork, small, packs⟩
      · left
        rw [failed]
        exact ⟨rfl, large, rfl⟩
      · right
        refine ⟨rfl, data, fork, small, ?_⟩
        rw [packs]
        refine Eq.trans (writeHeader_tabled run (tabled.withLength data.length) listing.writes
          listing.stat _ 0) ?_
        have written := pwrite_behind data _
          (nonempty { packed.hdr.finish with rsrcLength := data.length } rfl)
        rw [length_writtenBytes] at written
        exact congrArg (fun file => Outcome.next ((0 : Int), file)) written

end Passes

/-! ## The file of a list in which the quarantine information has its place -/

structure Laid (names : List (List UInt8)) (hdr : FileHdr) : Prop where
  tabled : Tabled names hdr
  long : 82 ≤ hdr.rsrcOffset
  finder : hdr.finderLength < 2 ^ 32
  table : finderinfosize < hdr.finderLength → entriesEnd 120 names ≤ hdr.rsrcOffset

theorem Laid.withLength {names : List (List UInt8)} {hdr : FileHdr} (laid : Laid names hdr)
    (length : Nat) : Laid names { hdr with rsrcLength := length } :=
  ⟨laid.tabled.withLength length, laid.long, laid.finder, laid.table⟩

structure PackedHdr (run : Packing Info) (attributes : Attributes) (hdr : FileHdr) : Prop where
  finfo : hdr.finfo = finfoAfter emptyfinfo attributes
  laid : Laid ((ordinary attributes).map Prod.fst) hdr
  noFork : hdr.rsrcLength = 0
  entries : EntriesAt run.host.order hdr.area 0 attrMaxSize 120
    (entriesEnd 120 ((ordinary attributes).map Prod.fst)) (packedValues run attributes)
  without : totalLength (packedValues run attributes) = 0 →
    hdr.finderLength = finderinfosize ∧ hdr.rsrcOffset = 82
  withData : 0 < totalLength (packedValues run attributes) →
    hdr.rsrcOffset = entriesEnd 120 ((ordinary attributes).map Prod.fst) +
      totalLength (packedValues run attributes) ∧ hdr.finderLength + 50 = hdr.rsrcOffset

theorem length_finfoAfter (run : Packing Info) : ∀ attributes finfo, Readable run attributes →
    finfo.length = 32 → (finfoAfter finfo attributes).length = 32 := by
  intro attributes
  induction attributes with
  | nil => exact fun finfo readable long => long
  | cons attr attributes ih =>
      intro finfo readable long
      rw [finfoAfter]
      apply ih _ readable.tail
      split
      next finder => exact readable.finfo attr List.mem_cons_self finder
      next => exact long

structure Roomy (attributes : Attributes) : Prop where
  named : Named (attributes.map Prod.fst)
  short : (nameBytes (attributes.map Prod.fst)).length ≤ attrMaxHdrSize
  table : entriesEnd 120 ((ordinary attributes).map Prod.fst) ≤ attrMaxHdrSize

theorem length_le_entriesEnd (names : List (List UInt8)) : ∀ entry,
    entry + 12 * names.length ≤ entriesEnd entry names := by
  induction names with
  | nil => exact fun entry => Nat.le_refl entry
  | cons name names ih =>
      intro entry
      have bounds := attrEntryLength_namelen name
      have rest := ih (entry + attrEntryLength (namelen name))
      rw [entriesEnd, List.length_cons]
      unfold namelen at bounds rest ⊢
      omega

theorem finish_packed (hdr : FileHdr) (offset : hdr.rsrcOffset = 82)
    (length : hdr.finderLength = finderinfosize) (start : 120 ≤ hdr.dataStart)
    (small : hdr.dataStart + hdr.dataLength ≤ attrMaxSize) :
    (hdr.dataLength = 0 → hdr.finish.finderLength = finderinfosize ∧ hdr.finish.rsrcOffset = 82) ∧
      (0 < hdr.dataLength → hdr.finish.rsrcOffset = hdr.dataStart + hdr.dataLength ∧
        hdr.finish.finderLength + 50 = hdr.finish.rsrcOffset) := by
  unfold attrMaxSize at small
  unfold FileHdr.finish
  constructor
  · intro none
    rw [if_neg (by omega)]
    exact ⟨length, offset⟩
  · intro some'
    rw [if_pos some']
    dsimp only
    omega

theorem finish_laid {names : List (List UInt8)} {hdr : FileHdr}
    (tabled : Tabled names hdr.finish) (offset : hdr.rsrcOffset = 82)
    (length : hdr.finderLength = finderinfosize) (start : hdr.dataStart = entriesEnd 120 names)
    (small : hdr.dataStart + hdr.dataLength < 2 ^ 32) : Laid names hdr.finish := by
  have behind := entriesEnd_le names 120
  refine ⟨tabled, ?_, ?_, ?_⟩
  · unfold FileHdr.finish
    split
    · dsimp only
      omega
    · omega
  · unfold FileHdr.finish finderinfosize at *
    split
    · dsimp only
      omega
    · omega
  · unfold FileHdr.finish finderinfosize at *
    split
    · dsimp only
      omega
    · omega

theorem finish_kept (hdr : FileHdr) : hdr.finish.finfo = hdr.finfo ∧ hdr.finish.area = hdr.area ∧
    hdr.finish.numAttrs = hdr.numAttrs ∧ hdr.finish.rsrcLength = hdr.rsrcLength := by
  unfold FileHdr.finish
  split
  · exact ⟨rfl, rfl, rfl, rfl⟩
  · exact ⟨rfl, rfl, rfl, rfl⟩

section Listed

variable {run : Packing Info} {attributes : Attributes}

theorem collectNames_listing (roomy : Roomy attributes) :
    ∃ area, collectNames run (nameBytes (attributes.map Prod.fst)).length
        (nameBytes (attributes.map Prod.fst)) (nameBytes (attributes.map Prod.fst)).length
        ⟨FileHdr.initial run.inode, 120, false⟩ =
      some ⟨{ FileHdr.initial run.inode with
          area := area
          numAttrs := ((ordinary attributes).map Prod.fst).length
          dataStart := entriesEnd 120 ((ordinary attributes).map Prod.fst) },
        entriesEnd 120 ((ordinary attributes).map Prod.fst),
        decide (run.system.qtnXattrName ∈ (ordinary attributes).map Prod.fst)⟩ ∧
      EmptyAt area 120 ((ordinary attributes).map Prod.fst) := by
  have table := roomy.table
  have few := length_le_entriesEnd ((ordinary attributes).map Prod.fst) 120
  unfold attrMaxHdrSize at table
  obtain ⟨area, added, -, empty⟩ := addNames_spec ((ordinary attributes).map Prod.fst) 120
    (FileHdr.initial run.inode) (fun address behind => rfl) rfl (by omega)
    (by rw [FileHdr.initial]; dsimp only; omega)
  refine ⟨area, ?_, empty⟩
  have pass := collectNames_eq run (attributes.map Prod.fst) _ []
    ⟨FileHdr.initial run.inode, 120, false⟩ roomy.named (Nat.le_refl _)
  rw [List.append_nil, ← ordinary_names] at pass
  rw [pass (by dsimp only; unfold attrMaxSize; omega)]
  have none : (FileHdr.initial run.inode).numAttrs + ((ordinary attributes).map Prod.fst).length =
      ((ordinary attributes).map Prod.fst).length := Nat.zero_add _
  dsimp only
  rw [added, none, Bool.false_or]

theorem packedHdr_filled (readable : Readable run attributes) (roomy : Roomy attributes)
    (room : entriesEnd 120 ((ordinary attributes).map Prod.fst) +
      totalLength (packedValues run attributes) ≤ attrMaxSize)
    {hdr : FileHdr} {area : Memory}
    (count : hdr.numAttrs = ((ordinary attributes).map Prod.fst).length)
    (start : hdr.dataStart = entriesEnd 120 ((ordinary attributes).map Prod.fst))
    (length : hdr.dataLength = totalLength (packedValues run attributes))
    (finfo : hdr.finfo = finfoAfter emptyfinfo attributes) (noFork : hdr.rsrcLength = 0)
    (finder : hdr.finderLength = finderinfosize) (offset : hdr.rsrcOffset = 82)
    (same : hdr.area = area)
    (entries : EntriesAt run.host.order area 0 attrMaxSize 120
      (entriesEnd 120 ((ordinary attributes).map Prod.fst)) (packedValues run attributes)) :
    PackedHdr run attributes hdr.finish := by
  obtain ⟨keptFinfo, keptArea, keptCount, keptFork⟩ := finish_kept hdr
  have few := length_le_entriesEnd ((ordinary attributes).map Prod.fst) 120
  have table := roomy.table
  obtain ⟨without, withData⟩ := finish_packed hdr offset finder
    (by rw [start]; exact entriesEnd_le _ 120) (by rw [start, length]; exact room)
  rw [length] at without withData
  rw [start] at withData
  unfold attrMaxHdrSize at table
  have named := named_ordinary roomy.named
  have tabled : Tabled ((ordinary attributes).map Prod.fst) hdr.finish := by
    constructor
    · rw [keptFinfo, finfo]
      exact length_finfoAfter run attributes emptyfinfo readable rfl
    · exact ⟨by rw [keptCount, count], by omega, named⟩
    · exact roomy.table
    · have names := entries.names
      rw [packedValues_names] at names
      rw [keptArea, same]
      exact names
  unfold attrMaxSize at room
  constructor
  · rw [keptFinfo, finfo]
  · exact finish_laid tabled offset finder start (by omega)
  · rw [keptFork, noFork]
  · rw [keptArea, same]
    exact entries
  · exact without
  · exact withData

/-- Of a list in which given quarantine information has its place the file holds every attribute
that is not empty. -/
theorem copyfilePack_listed (listing : Listing run attributes) (readable : Readable run attributes)
    (roomy : Roomy attributes)
    (room : entriesEnd 120 ((ordinary attributes).map Prod.fst) +
      totalLength (packedValues run attributes) ≤ attrMaxSize)
    (listed : run.qinfo.isSome → run.system.qtnXattrName ∈ (ordinary attributes).map Prod.fst) :
    ∃ hdr, PackedHdr run attributes hdr ∧
      ((xattrResourceforkName ∉ attributes.map Prod.fst ∧
        copyfilePack run [] = .next (0, writtenBytes run.host hdr)) ∨
      (xattrResourceforkName ∈ attributes.map Prod.fst ∧
        (∀ data, run.system.fgetxattr xattrResourceforkName = .ok data → intMax < data.length) ∧
        copyfilePack run [] = .next (-1, [])) ∨
      (xattrResourceforkName ∈ attributes.map Prod.fst ∧ ∃ data,
        run.system.fgetxattr xattrResourceforkName = .ok data ∧ data.length ≤ intMax ∧
        copyfilePack run [] =
          .next (0, writtenBytes run.host { hdr with rsrcLength := data.length } ++ data))) := by
  obtain ⟨area, pass, empty⟩ := collectNames_listing roomy
  have names : withQuarantine run (nameList run)
      (decide (run.system.qtnXattrName ∈ (ordinary attributes).map Prod.fst)) =
        nameBytes (attributes.map Prod.fst) := by
    rw [withQuarantine, nameList_listing listing roomy.short, if_neg]
    rintro ⟨given, unseen⟩
    exact unseen (decide_eq_true (listed given))
  obtain ⟨packed, after, collected, filled⟩ := collectData_spec run attributes
    (nameBytes (attributes.map Prod.fst)).length []
    ⟨{ FileHdr.initial run.inode with
        area := area
        numAttrs := ((ordinary attributes).map Prod.fst).length
        dataStart := entriesEnd 120 ((ordinary attributes).map Prod.fst) }, 120, 0, false, false⟩
    readable roomy.named (Nat.le_refl _)
    ⟨rfl, empty, Nat.le_refl _, by
      rw [FileHdr.initial]
      exact room⟩
  rw [List.append_nil] at collected
  have whole := copyfilePack_passes listing roomy.short pass []
  rw [names, collected, bind_next] at whole
  have hdr := filled.hdr
  have packedHdr : PackedHdr run attributes packed.hdr.finish := by
    apply packedHdr_filled readable roomy room
    · rw [hdr]
    · rw [hdr]
    · rw [hdr]
      exact Nat.zero_add _
    · rw [hdr]
      rfl
    · rw [hdr]
      rfl
    · rw [hdr]
      rfl
    · rw [hdr]
      rfl
    · rw [hdr]
    · have entries := filled.entries
      rw [FileHdr.initial] at entries
      exact entries
  have long := packedHdr.laid.long
  have positive : 0 < packed.hdr.finish.rsrcOffset := by omega
  have noError : packed.error = 0 := filled.error
  have forked : packed.hasrsrcfork =
      decide (xattrResourceforkName ∈ attributes.map Prod.fst) := by
    rw [filled.fork, Bool.false_or]
  refine ⟨packed.hdr.finish, packedHdr, ?_⟩
  rw [whole]
  rcases writePacked_cases listing packedHdr.laid.tabled positive with
    ⟨noFork, written⟩ | ⟨fork, large, failed⟩ | ⟨fork, data, found, small, written⟩
  · left
    rw [forked] at noFork
    rw [written, noError]
    exact ⟨of_decide_eq_false noFork, rfl⟩
  · right
    left
    rw [forked] at fork
    exact ⟨of_decide_eq_true fork, large, failed⟩
  · right
    right
    rw [forked] at fork
    exact ⟨of_decide_eq_true fork, data, found, small, written⟩

end Listed

end LegacySupport.Copyfile
