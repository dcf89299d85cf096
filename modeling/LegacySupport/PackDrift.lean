import LegacySupport.PackFile

/-!
The second pass over a list of names that is not the one the table was made of. Its entries get
data of other names, or of none, but the names in the table stay.
-/

namespace LegacySupport.Copyfile

open Bytes CInt CheckedMemory

variable {Info : Type}

/-! ## Stores that leave the names -/

theorem namesAt_stored_behind {memory : Memory} {address : Nat} (names : List (List UInt8))
    (entry : Nat) (bytes : List UInt8) (behind : entriesEnd entry names ≤ address)
    (named : NamesAt memory entry names) : NamesAt (stored memory address bytes) entry names :=
  namesAt_congr names entry (fun other lower upper =>
    (stored_outside memory address other bytes (Or.inl (by omega))).symm) named

theorem namesAt_stored_entry (bytes : List UInt8) (short : bytes.length ≤ 8)
    (rest : List (List UInt8)) : ∀ done entry memory, NamesAt memory entry (done ++ rest) →
      NamesAt (stored memory (entriesEnd entry done) bytes) entry (done ++ rest) := by
  have first : ∀ name entry memory target, (target = entry ∨ entry + attrEntryLength (namelen name)
      ≤ target) → NameAt memory entry name → NameAt (stored memory target bytes) entry name := by
    intro name entry memory target aside named
    have bounds := attrEntryLength_namelen name
    constructor
    · rw [stored_outside _ _ _ _ (by omega)]
      exact named.length
    · rw [bytesAt_stored_outside _ _ _ _ _ (by omega)]
      exact named.bytes
  intro done
  induction done with
  | nil =>
      intro entry memory named
      rw [List.nil_append] at named ⊢
      cases rest with
      | nil => exact True.intro
      | cons name rest =>
          have bounds := attrEntryLength_namelen name
          refine ⟨first name entry memory entry (Or.inl rfl) named.1, ?_⟩
          exact namesAt_congr rest _ (fun address lower upper =>
            (stored_outside memory _ address bytes (Or.inr (by rw [entriesEnd]; omega))).symm) named.2
  | cons name done ih =>
      intro entry memory named
      have later := entriesEnd_le done (entry + attrEntryLength (namelen name))
      rw [List.cons_append] at named ⊢
      rw [entriesEnd]
      exact ⟨first name entry memory _ (Or.inr later) named.1, ih _ memory named.2⟩

theorem entriesEnd_append (done rest : List (List UInt8)) : ∀ entry,
    entriesEnd entry (done ++ rest) = entriesEnd (entriesEnd entry done) rest := by
  induction done with
  | nil => exact fun entry => rfl
  | cons name done ih => exact fun entry => ih _

theorem namesAt_append {memory : Memory} (rest : List (List UInt8)) : ∀ done entry,
    NamesAt memory entry (done ++ rest) → NamesAt memory (entriesEnd entry done) rest := by
  intro done
  induction done with
  | nil => exact fun entry named => named
  | cons name done ih => exact fun entry named => ih _ named.2

/-! ## The pass -/

structure Bounded (run : Packing Info) : Prop where
  acl : ∀ text, run.system.aclText = some text → text.length < xattrMaxattrlen
  toData : ∀ info data, run.qinfo = some info → run.system.qtnFileToData info = some data →
    data.length ≤ xattrMaxattrlen

structure Intact (names : List (List UInt8)) (left : Nat) (state : Packed) : Prop where
  finfo : state.hdr.finfo.length = 32
  count : state.hdr.numAttrs = names.length
  start : state.hdr.dataStart = entriesEnd 120 names
  offset : state.hdr.rsrcOffset = 82
  finder : state.hdr.finderLength = finderinfosize
  table : NamesAt state.hdr.area 120 names
  entry : (∃ done rest, names = done ++ rest ∧ state.entry = entriesEnd 120 done) ∨
    state.hdr.dataStart ≤ state.entry
  data : state.hdr.dataLength + xattrMaxattrlen * left ≤ xattrMaxattrlen * attrMaxHdrSize

section Drift

variable {run : Packing Info} {names : List (List UInt8)} {left : Nat}

def Gathered.length : Gathered → Nat
  | .data bytes _ => bytes.length
  | .none | .skip => 0

theorem finfo_kept {state found : Packed} {gathered : Gathered}
    (finfo : state.hdr.finfo.length = 32) (hdr : found.hdr = state.hdr)
    (entry : found.entry = state.entry) (small : gathered.length ≤ xattrMaxattrlen) :
    ∃ info : List UInt8, info.length = 32 ∧ found.hdr = { state.hdr with finfo := info } ∧
      found.entry = state.entry ∧ gathered.length ≤ xattrMaxattrlen :=
  ⟨state.hdr.finfo, finfo, hdr, entry, small⟩

theorem gather_bounded (bounded : Bounded run) (name : List UInt8) {state found : Packed}
    {gathered : Gathered} (finfo : state.hdr.finfo.length = 32)
    (gathers : gather run name state = .next (found, gathered)) :
    ∃ info : List UInt8, info.length = 32 ∧ found.hdr = { state.hdr with finfo := info } ∧
      found.entry = state.entry ∧ gathered.length ≤ xattrMaxattrlen := by
  unfold gather at gathers
  split at gathers
  · split at gathers
    · cases gathers
      exact finfo_kept finfo rfl rfl (Nat.zero_le _)
    next text acl =>
      have small : (text ++ [0]).length ≤ xattrMaxattrlen := by
        rw [List.length_append]
        exact bounded.acl text acl
      split at gathers
      · cases gathers
        exact finfo_kept finfo rfl rfl small
      · cases gathers
        exact finfo_kept finfo rfl rfl (Nat.zero_le _)
  · split at gathers
    next info given =>
      have qinfo : run.qinfo = some info := by
        split at given
        · exact given
        · cases given
      split at gathers
      · cases gathers
      next data serial =>
        split at gathers
        · cases gathers
          exact finfo_kept finfo rfl rfl (bounded.toData info data qinfo serial)
        · cases gathers
    · split at gathers
      · split at gathers
        · cases gathers
          exact finfo_kept finfo rfl rfl (Nat.zero_le _)
        next value read =>
          split at gathers
          · cases gathers
            exact finfo_kept finfo rfl rfl (Nat.zero_le _)
          next short =>
            cases gathers
            refine ⟨_, ?_, rfl, rfl, Nat.zero_le _⟩
            rw [List.length_append, List.length_drop]
            omega
      · split at gathers
        · cases gathers
          exact finfo_kept finfo rfl rfl (Nat.zero_le _)
        · split at gathers
          · cases gathers
            exact finfo_kept finfo rfl rfl (Nat.zero_le _)
          next value read =>
            split at gathers
            · cases gathers
              exact finfo_kept finfo rfl rfl (Nat.zero_le _)
            · split at gathers
              · cases gathers
                exact finfo_kept finfo rfl rfl (Nat.zero_le _)
              next small =>
                split at gathers
                · cases gathers
                  exact finfo_kept finfo rfl rfl (Nat.le_of_not_lt small)
                · cases gathers
                  exact finfo_kept finfo rfl rfl (Nat.zero_le _)

theorem Intact.mono {less : Nat} {state : Packed} (intact : Intact names left state)
    (fewer : less ≤ left) : Intact names less state := by
  have data := intact.data
  have bound := Nat.mul_le_mul_left xattrMaxattrlen fewer
  exact ⟨intact.finfo, intact.count, intact.start, intact.offset, intact.finder, intact.table,
    intact.entry, by omega⟩

theorem Intact.withFinfo {state found : Packed} {info : List UInt8}
    (intact : Intact names left state) (long : info.length = 32)
    (hdr : found.hdr = { state.hdr with finfo := info }) (entry : found.entry = state.entry) :
    Intact names left found := by
  constructor
  · rw [hdr]
    exact long
  · rw [hdr]
    exact intact.count
  · rw [hdr]
    exact intact.start
  · rw [hdr]
    exact intact.offset
  · rw [hdr]
    exact intact.finder
  · rw [hdr]
    exact intact.table
  · rw [hdr, entry]
    exact intact.entry
  · rw [hdr]
    exact intact.data

theorem Intact.bump {state : Packed} (named : Named names) (intact : Intact names left state) :
    Intact names left state.bump := by
  refine ⟨intact.finfo, intact.count, intact.start, intact.offset, intact.finder, intact.table,
    ?_, intact.data⟩
  have start := intact.start
  have bounds := attrEntryLength_bounds (state.hdr.area (state.entry + 10))
  rcases intact.entry with ⟨done, rest, split, entry⟩ | behind
  · cases rest with
    | nil =>
        right
        rw [List.append_nil] at split
        rw [split, ← entry] at start
        dsimp only [Packed.bump]
        omega
    | cons name rest =>
        left
        have table := intact.table
        have short : namelen name ≤ xattrMaxnamelen + 1 :=
          (named name (by rw [split]; exact List.mem_append_right _ List.mem_cons_self)).1
        rw [split] at table
        have here := (namesAt_append (name :: rest) done 120 table).1
        rw [← entry] at here
        refine ⟨done ++ [name], rest, ?_, ?_⟩
        · rw [split, List.append_assoc]
          rfl
        · dsimp only [Packed.bump]
          rw [here.toNat short, entriesEnd_append, entry]
          rfl
  · right
    dsimp only [Packed.bump]
    omega

theorem Intact.place {state after : Packed} {bytes : List UInt8} {allocated : Bool}
    (inside : entriesEnd 120 names ≤ attrMaxHdrSize) (small : bytes.length ≤ xattrMaxattrlen)
    (intact : Intact names (left + 1) state)
    (places : placeData run state bytes allocated = .next after) : Intact names left after := by
  have start := intact.start
  have data := intact.data
  rw [Nat.mul_succ] at data
  unfold attrMaxHdrSize at inside data
  unfold xattrMaxattrlen at small data
  have offset : (state.hdr.dataStart + state.hdr.dataLength) % 2 ^ 32 =
      state.hdr.dataStart + state.hdr.dataLength := Nat.mod_eq_of_lt (by omega)
  have length : (state.hdr.dataLength + bytes.length) % 2 ^ 32 =
      state.hdr.dataLength + bytes.length := Nat.mod_eq_of_lt (by omega)
  have numbers : (encode run.host.order 4 (state.hdr.dataStart + state.hdr.dataLength) ++
      encode run.host.order 4 bytes.length).length = 8 := by simp
  have entry : NamesAt (stored state.hdr.area state.entry
      (encode run.host.order 4 (state.hdr.dataStart + state.hdr.dataLength) ++
        encode run.host.order 4 bytes.length)) 120 names := by
    rcases intact.entry with ⟨done, rest, split, entry⟩ | behind
    · have table := intact.table
      rw [split] at table ⊢
      rw [entry]
      exact namesAt_stored_entry _ (by omega) rest done 120 _ table
    · exact namesAt_stored_behind names 120 _ (by omega) intact.table
  unfold placeData at places
  dsimp only at places
  rw [offset, length] at places
  split at places
  · cases places
  · cases places
    refine ⟨intact.finfo, intact.count, intact.start, intact.offset, intact.finder, ?_,
      intact.entry, ?_⟩
    · dsimp only
      split
      · exact entry
      · exact namesAt_stored_behind names 120 _ (by omega) entry
    · dsimp only
      unfold xattrMaxattrlen attrMaxHdrSize
      omega

theorem intact_collectData (bounded : Bounded run) (named : Named names)
    (inside : entriesEnd 120 names ≤ attrMaxHdrSize) : ∀ fuel rest left state after,
    Intact names left state → collectData run fuel rest left state = .next after →
      Intact names 0 after := by
  intro fuel
  induction fuel with
  | zero =>
      intro rest left state after intact collected
      cases collected
      exact intact.mono (Nat.zero_le _)
  | succ fuel ih =>
      intro rest left state after intact collected
      rw [collectData] at collected
      split at collected
      · cases collected
        exact intact.mono (Nat.zero_le _)
      next more =>
        dsimp only at collected
        obtain ⟨less, fewer⟩ := Nat.exists_eq_succ_of_ne_zero more
        have lower : left - ((cstring rest).length + 1) ≤ less := by omega
        rw [fewer] at intact
        cases gathers : gather run (cstring rest) state with
        | exit left =>
            rw [gathers, bind_exit] at collected
            cases collected
        | fault access =>
            rw [gathers, bind_fault] at collected
            cases collected
        | next result =>
            obtain ⟨found, gathered⟩ := result
            obtain ⟨info, long, hdr, entry, small⟩ :=
              gather_bounded bounded (cstring rest) intact.finfo gathers
            have kept := intact.withFinfo long hdr entry
            rw [gathers, bind_next] at collected
            cases gathered with
            | none => exact ih _ _ found after (kept.mono (by omega)) collected
            | skip => exact ih _ _ found.bump after ((kept.bump named).mono (by omega)) collected
            | data bytes allocated =>
                dsimp only at collected
                cases places : placeData run found bytes allocated with
                | exit left =>
                    rw [places, bind_exit] at collected
                    cases collected
                | fault access =>
                    rw [places, bind_fault] at collected
                    cases collected
                | next placed =>
                    rw [places, bind_next] at collected
                    have still := kept.place inside small places
                    exact ih _ _ placed.bump after ((still.bump named).mono lower) collected

theorem Intact.laid {state : Packed} (named : Named names)
    (inside : entriesEnd 120 names ≤ attrMaxHdrSize) (intact : Intact names 0 state) :
    Laid names state.hdr.finish := by
  obtain ⟨keptFinfo, keptArea, keptCount, -⟩ := finish_kept state.hdr
  have few := length_le_entriesEnd names 120
  have start := intact.start
  have data := intact.data
  unfold attrMaxHdrSize at inside data
  unfold xattrMaxattrlen at data
  have tabled : Tabled names state.hdr.finish := by
    constructor
    · rw [keptFinfo]
      exact intact.finfo
    · exact ⟨by rw [keptCount, intact.count], by omega, named⟩
    · exact inside
    · rw [keptArea]
      exact intact.table
  exact finish_laid tabled intact.offset intact.finder start (by omega)

end Drift

/-- Whatever becomes of the list of names, the file that is written has the table of the names
that are the source's. -/
theorem copyfilePack_drifts {run : Packing Info} {attributes : Attributes} {file : List UInt8}
    (listing : Listing run attributes) (roomy : Roomy attributes) (bounded : Bounded run)
    (packs : copyfilePack run [] = .next (0, file)) :
    ∃ hdr rest, Laid ((ordinary attributes).map Prod.fst) hdr ∧
      file = writtenBytes run.host hdr ++ rest := by
  obtain ⟨area, pass, empty⟩ := collectNames_listing roomy
  have named := named_ordinary roomy.named
  have whole := copyfilePack_passes listing roomy.short pass []
  rw [packs] at whole
  have short := roomy.short
  cases collected : collectData run (nameBytes (attributes.map Prod.fst)).length
      (withQuarantine run (nameList run)
        (decide (run.system.qtnXattrName ∈ (ordinary attributes).map Prod.fst)))
      (nameBytes (attributes.map Prod.fst)).length
      ⟨{ FileHdr.initial run.inode with
        area := area
        numAttrs := ((ordinary attributes).map Prod.fst).length
        dataStart := entriesEnd 120 ((ordinary attributes).map Prod.fst) }, 120, 0, false, false⟩ with
  | exit left =>
      rw [collected, bind_exit] at whole
      cases whole
  | fault access =>
      rw [collected, bind_fault] at whole
      cases whole
  | next packed =>
      have intact : Intact ((ordinary attributes).map Prod.fst) 0 packed := by
        refine intact_collectData bounded named roomy.table _ _ _ _ packed ?_ collected
        refine ⟨rfl, rfl, rfl, rfl, rfl, empty.names, Or.inl ⟨[], _, rfl, rfl⟩, ?_⟩
        rw [FileHdr.initial]
        dsimp only
        rw [Nat.zero_add]
        exact Nat.mul_le_mul_left _ short
      have laid := intact.laid named roomy.table
      have long := laid.long
      rw [collected, bind_next] at whole
      rcases writePacked_cases listing laid.tabled (by omega) with
        ⟨-, written⟩ | ⟨-, -, failed⟩ | ⟨-, data, -, -, written⟩
      · rw [written] at whole
        have same := (Prod.mk.inj (Outcome.next.inj whole)).2
        exact ⟨_, [], laid, same.trans (List.append_nil _).symm⟩
      · rw [failed] at whole
        cases whole
      · rw [written] at whole
        cases whole
        exact ⟨_, data, laid.withLength data.length, rfl⟩

end LegacySupport.Copyfile
