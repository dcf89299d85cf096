import LegacySupport.CheckAccessCore

/-!
What `__mpls_check_access` answers. The walk over the regions sees their order and their
protections, but not the gaps between them.
-/

namespace LegacySupport.Access

open CInt

def Region.Contains (region : Region) (address : Nat) : Prop :=
  region.start ≤ address ∧ address < region.stop

def Region.Permits (region : Region) (access : UInt32) : Prop :=
  region.protection &&& access = access

def Mapped (regions : List Region) (address : Nat) : Prop :=
  ∃ region ∈ regions, region.Contains address

def Accessible (regions : List Region) (access : UInt32) (address : Nat) : Prop :=
  ∃ region ∈ regions, region.Contains address ∧ region.Permits access

theorem permits_iff (region : Region) (access : UInt32) :
    access &&& ~~~region.protection = 0 ↔ region.Permits access := by
  unfold Region.Permits
  generalize region.protection = protection
  constructor
  · intro excess
    have split : access = (access &&& ~~~protection) ||| (protection &&& access) := by
      apply UInt32.toBitVec_inj.mp
      ext bit bound
      simp
      cases access.toBitVec[bit] <;> simp
    rw [excess] at split
    simpa using split.symm
  · intro included
    rw [← included]
    apply UInt32.toBitVec_inj.mp
    ext bit bound
    simp
    grind

theorem machVmRegion_lowest {regions : List Region}
    (ordered : regions.Pairwise fun first second => first.stop ≤ second.start)
    {address : Nat} {region : Region} (found : machVmRegion regions address = some region) :
    ∀ other ∈ regions, address < other.stop → other = region ∨ region.stop ≤ other.start := by
  intro other member above
  induction regions with
  | nil => cases member
  | cons head rest ih =>
      obtain ⟨first, later⟩ := List.pairwise_cons.mp ordered
      simp only [machVmRegion, List.find?_cons] at found
      split at found
      next reached =>
        cases found
        rcases List.mem_cons.mp member with same | member
        · exact Or.inl same
        · exact Or.inr (first other member)
      next passed =>
        rcases List.mem_cons.mp member with same | member
        · subst same
          simp at passed
          omega
        · exact ih later found member

theorem machVmRegion_none {regions : List Region} {address : Nat}
    (found : machVmRegion regions address = none) :
    ∀ region ∈ regions, region.stop ≤ address := by
  intro region member
  simpa [machVmRegion] using List.find?_eq_none.mp found region member

/-! ## The walk -/

/-- From an address on, the walk succeeds when the last byte of the range is mapped and every
region on the way permits the access. Gaps are not looked for. -/
theorem checkAccessLoop_eq_zero_iff {page : Nat} (map : VmMap page) (access : UInt32)
    (endAdr address : Nat) :
    checkAccessLoop map.regions access endAdr address = 0 ↔
      endAdr ≤ address ∨
        Mapped map.regions (endAdr - 1) ∧
          ∀ region ∈ map.regions, address < region.stop → region.start < endAdr →
            region.Permits access := by
  fun_induction checkAccessLoop map.regions access endAdr address with
  | case1 address inside missing =>
      refine iff_of_false (by omega) ?_
      rintro (reached | ⟨⟨region, member, _, below⟩, _⟩)
      · omega
      · have passed := machVmRegion_none missing region member
        omega
  | case2 address inside info found beyond =>
      have lowest := machVmRegion_lowest map.ordered found
      refine iff_of_false (by omega) ?_
      rintro (reached | ⟨⟨region, member, above, below⟩, _⟩)
      · omega
      · rcases lowest region member (by omega) with same | later
        · subst same
          omega
        · have bounds := map.nonempty info (machVmRegion_some found).1
          simp only [Region.stop] at later
          omega
  | case3 address inside info found within denied =>
      obtain ⟨member, above⟩ := machVmRegion_some found
      refine iff_of_false (by omega) ?_
      rintro (reached | ⟨_, permitted⟩)
      · omega
      · exact denied ((permits_iff info access).mpr (permitted info member above (by omega)))
  | case4 address inside info found within permitted ih =>
      obtain ⟨member, above⟩ := machVmRegion_some found
      have lowest := machVmRegion_lowest map.ordered found
      have permits := (permits_iff info access).mp (not_not.mp permitted)
      rw [ih]
      constructor
      · rintro (reached | ⟨mapped, rest⟩)
        · refine Or.inr ⟨⟨info, member, by omega, by omega⟩, ?_⟩
          intro region listed overlaps starts
          rcases lowest region listed overlaps with same | later
          · exact same ▸ permits
          · omega
        · refine Or.inr ⟨mapped, ?_⟩
          intro region listed overlaps starts
          rcases lowest region listed overlaps with same | later
          · exact same ▸ permits
          · have size := map.nonempty region listed
            exact rest region listed (by simp only [Region.stop] at later ⊢; omega) starts
      · rintro (reached | ⟨mapped, all⟩)
        · omega
        · refine Or.inr ⟨mapped, ?_⟩
          intro region listed overlaps starts
          exact all region listed (by omega) starts
  | case5 address outside => exact iff_of_true rfl (Or.inl (by omega))

/-- What is checked of a range: its first byte and, unless the range ends with the address
space, its last byte and the regions it meets. -/
def Passes (abi : Abi) (regions : List Region) (adr size : Nat) (access : UInt32) : Prop :=
  Accessible regions access adr ∧
    (adr + size < abi.sizeMod →
      Mapped regions (adr + size - 1) ∧
        ∀ region ∈ regions, adr < region.stop → region.start < adr + size →
          region.Permits access)

theorem rangeEnd_of_lt {abi : Abi} {adr size : Nat} (fits : adr + size < abi.sizeMod) :
    abi.sizeT (adr + size) = adr + size := by
  have same := sizeT_of_lt fits
  rwa [Nat.cast_add] at same

theorem rangeEnd_of_eq {abi : Abi} {adr size : Nat} (wraps : adr + size = abi.sizeMod) :
    abi.sizeT (adr + size) = 0 := by
  cases abi <;> simp at wraps ⊢ <;> omega

theorem accessible_iff_lowest {page : Nat} (map : VmMap page) {access : UInt32} {adr : Nat}
    {info : Region} (found : machVmRegion map.regions adr = some info) :
    Accessible map.regions access adr ↔ info.start ≤ adr ∧ info.Permits access := by
  obtain ⟨member, above⟩ := machVmRegion_some found
  have lowest := machVmRegion_lowest map.ordered found
  constructor
  · rintro ⟨region, listed, ⟨starts, below⟩, permits⟩
    rcases lowest region listed below with same | later
    · subst same
      exact ⟨starts, permits⟩
    · omega
  · rintro ⟨starts, permits⟩
    exact ⟨info, member, ⟨starts, above⟩, permits⟩

theorem mplsCheckAccess_noHint_iff (abi : Abi) {page : Nat} (map : VmMap page) {adr size : Nat}
    (access : UInt32) (positive : 1 ≤ size) (noWrap : adr + size ≤ abi.sizeMod) :
    mplsCheckAccess abi page map.regions adr size access none = 0 ↔
      Passes abi map.regions adr size access := by
  simp only [mplsCheckAccess, Option.any_none, Bool.false_eq_true, if_false]
  cases found : machVmRegion map.regions adr with
  | none =>
      refine iff_of_false (by simp) ?_
      rintro ⟨⟨region, member, ⟨_, below⟩, _⟩, _⟩
      have passed := machVmRegion_none found region member
      omega
  | some info =>
      obtain ⟨member, above⟩ := machVmRegion_some found
      have lowest := machVmRegion_lowest map.ordered found
      simp only [Passes, accessible_iff_lowest map found]
      split
      next early => exact iff_of_false (by omega) fun passes => by omega
      next starts =>
        split
        next denied =>
          refine iff_of_false (by omega) fun passes => ?_
          exact denied ((permits_iff info access).mpr passes.1.2)
        next permitted =>
          have permits := (permits_iff info access).mp (not_not.mp permitted)
          rw [checkAccessLoop_eq_zero_iff map]
          by_cases fits : adr + size < abi.sizeMod
          · rw [rangeEnd_of_lt fits]
            constructor
            · rintro (reached | ⟨mapped, rest⟩)
              · refine ⟨⟨by omega, permits⟩, fun _ => ⟨⟨info, member, by omega, by omega⟩, ?_⟩⟩
                intro region listed overlaps starts
                rcases lowest region listed overlaps with same | later
                · exact same ▸ permits
                · omega
              · refine ⟨⟨by omega, permits⟩, fun _ => ⟨mapped, ?_⟩⟩
                intro region listed overlaps starts
                rcases lowest region listed overlaps with same | later
                · exact same ▸ permits
                · have nonempty := map.nonempty region listed
                  exact rest region listed (by simp only [Region.stop] at later ⊢; omega) starts
            · rintro ⟨_, checked⟩
              obtain ⟨mapped, all⟩ := checked fits
              refine Or.inr ⟨mapped, ?_⟩
              intro region listed overlaps starts
              exact all region listed (by omega) starts
          · have wrapped : abi.sizeT (adr + size) = 0 := rangeEnd_of_eq (by omega)
            rw [wrapped]
            refine iff_of_true (Or.inl (by omega)) ⟨⟨by omega, permits⟩, ?_⟩
            intro below
            exact absurd below fits

/-! ## The answer -/

theorem VmMap.unique {page : Nat} (map : VmMap page) {address : Nat} {first second : Region}
    (member : first ∈ map.regions) (other : second ∈ map.regions)
    (contains : first.Contains address) (also : second.Contains address) : first = second := by
  obtain ⟨starts, below⟩ := contains
  obtain ⟨otherStarts, otherBelow⟩ := also
  cases found : machVmRegion map.regions address with
  | none =>
      have passed := machVmRegion_none found first member
      omega
  | some info =>
      have above := (machVmRegion_some found).2
      have lowest := machVmRegion_lowest map.ordered found
      rcases lowest first member below with same | later
      · rcases lowest second other otherBelow with alsoSame | later
        · rw [same, alsoSame]
        · omega
      · omega

theorem permits_of_accessible {page : Nat} (map : VmMap page) {access : UInt32}
    {region : Region} {start stop : Nat}
    (accessible : ∀ address, start ≤ address → address < stop →
      Accessible map.regions access address)
    (member : region ∈ map.regions) (above : start < region.stop) (below : region.start < stop)
    (nonempty : start < stop) : region.Permits access := by
  have size := map.nonempty region member
  have inside : region.Contains (max start region.start) := by
    simp only [Region.Contains, Region.stop] at above ⊢
    omega
  obtain ⟨other, listed, contains, permits⟩ :=
    accessible (max start region.start) (by omega) (by omega)
  rw [map.unique member listed inside contains]
  exact permits

theorem Accessible.mapped {regions : List Region} {access : UInt32} {address : Nat}
    (accessible : Accessible regions access address) : Mapped regions address := by
  obtain ⟨region, member, contains, _⟩ := accessible
  exact ⟨region, member, contains⟩

def RangeAccessible (regions : List Region) (access : UInt32) (adr size : Nat) : Prop :=
  ∀ address, adr ≤ address → address < adr + size → Accessible regions access address

theorem RangeAccessible.passes (abi : Abi) {page : Nat} {map : VmMap page} {access : UInt32}
    {adr size : Nat} (accessible : RangeAccessible map.regions access adr size)
    (positive : 1 ≤ size) : Passes abi map.regions adr size access := by
  refine ⟨accessible adr (by omega) (by omega), ?_⟩
  intro _
  refine ⟨(accessible (adr + size - 1) (by omega) (by omega)).mapped, ?_⟩
  intro region member above below
  exact permits_of_accessible map accessible member above below (by omega)

def HintHolds (page : Nat) (regions : List Region) (access : UInt32) (okadr : Option Nat) : Prop :=
  ∀ hint, okadr = some hint →
    ∀ address, pageOf page address = pageOf page hint → Accessible regions access address

theorem rangeLast (abi : Abi) {adr size : Nat} (positive : 1 ≤ size)
    (noWrap : adr + size ≤ abi.sizeMod) :
    abi.sizeT (abi.sizeT (adr + size) - 1) = adr + size - 1 := by
  cases abi <;> simp at noWrap ⊢ <;> omega

theorem mplsCheckAccess_hint (abi : Abi) {page : Nat} (map : VmMap page) {adr size : Nat}
    (access : UInt32) {okadr : Option Nat} (positive : 1 ≤ size)
    (noWrap : adr + size ≤ abi.sizeMod) (hint : HintHolds page map.regions access okadr) :
    mplsCheckAccess abi page map.regions adr size access okadr =
      mplsCheckAccess abi page map.regions adr size access none := by
  cases okadr with
  | none => rfl
  | some okadr =>
      by_cases samePage : pageOf page adr = pageOf page okadr ∧
          pageOf page (adr + size - 1) = pageOf page okadr
      · have accessible : RangeAccessible map.regions access adr size := by
          intro address lower upper
          have first : pageOf page adr ≤ pageOf page address :=
            Nat.mul_le_mul_right page (Nat.div_le_div_right lower)
          have last : pageOf page address ≤ pageOf page (adr + size - 1) :=
            Nat.mul_le_mul_right page (Nat.div_le_div_right (by omega))
          exact hint okadr rfl address (by omega)
        have answer := (mplsCheckAccess_noHint_iff abi map access positive noWrap).mpr
          (accessible.passes abi positive)
        rw [answer]
        simp [mplsCheckAccess, rangeLast abi positive noWrap, samePage]
      · simp [mplsCheckAccess, rangeLast abi positive noWrap, samePage]

/-- The range has no gap, or something else is wrong with it: its first or its last byte is not
mapped, or a region that it meets denies the access. Of a range that ends with the address space
only the region of the first byte is looked at. -/
def GapVisible (abi : Abi) (regions : List Region) (access : UInt32) (adr size : Nat) : Prop :=
  if adr + size < abi.sizeMod then
    (∀ address, adr ≤ address → address < adr + size → Mapped regions address) ∨
      ¬ Mapped regions adr ∨ ¬ Mapped regions (adr + size - 1) ∨
      ∃ region ∈ regions, adr < region.stop ∧ region.start < adr + size ∧ ¬ region.Permits access
  else RangeAccessible regions access adr size ∨ ¬ Accessible regions access adr

theorem gapVisible_iff (abi : Abi) {regions : List Region} {access : UInt32} {adr size : Nat}
    (positive : 1 ≤ size) :
    GapVisible abi regions access adr size ↔
      (Passes abi regions adr size access → RangeAccessible regions access adr size) := by
  unfold GapVisible Passes
  split
  next fits =>
    constructor
    · rintro visible ⟨⟨first, member, contains, permits⟩, checked⟩
      obtain ⟨last, all⟩ := checked fits
      intro address lower upper
      rcases visible with mapped | unmapped | unmapped | ⟨region, listed, above, below, denied⟩
      · obtain ⟨region, listed, inside⟩ := mapped address lower upper
        obtain ⟨starts, ends⟩ := inside
        exact ⟨region, listed, ⟨starts, ends⟩, all region listed (by omega) (by omega)⟩
      · exact absurd ⟨first, member, contains⟩ unmapped
      · exact absurd last unmapped
      · exact absurd (all region listed above below) denied
    · intro implies
      by_contra hidden
      simp only [not_or, not_not, not_exists, not_and] at hidden
      obtain ⟨gap, first, last, all⟩ := hidden
      apply gap
      intro address lower upper
      obtain ⟨region, member, starts, ends⟩ := first
      have permits := all region member ends (by omega)
      exact (implies ⟨⟨region, member, ⟨starts, ends⟩, permits⟩, fun _ => ⟨last, all⟩⟩
        address lower upper).mapped
  next wraps =>
    constructor
    · rintro (accessible | denied) ⟨first, _⟩
      · exact accessible
      · exact absurd first denied
    · intro implies
      by_cases first : Accessible regions access adr
      · exact Or.inl (implies ⟨first, fun fits => absurd fits wraps⟩)
      · exact Or.inr first

/-- The answer is right, and the same with a hint, exactly when a gap is not all that is wrong. -/
theorem mplsCheckAccess_correct_iff (abi : Abi) {page : Nat} (map : VmMap page) {adr size : Nat}
    (access : UInt32) {okadr : Option Nat} (positive : 1 ≤ size)
    (noWrap : adr + size ≤ abi.sizeMod) (hint : HintHolds page map.regions access okadr) :
    ((mplsCheckAccess abi page map.regions adr size access none = 0 ↔
          RangeAccessible map.regions access adr size) ∧
        mplsCheckAccess abi page map.regions adr size access okadr =
          mplsCheckAccess abi page map.regions adr size access none) ↔
      GapVisible abi map.regions access adr size := by
  rw [and_iff_left (mplsCheckAccess_hint abi map access positive noWrap hint),
    mplsCheckAccess_noHint_iff abi map access positive noWrap, gapVisible_iff abi positive]
  constructor
  · intro exact_answer
    exact exact_answer.mp
  · intro implies
    exact ⟨implies, fun accessible => accessible.passes abi positive⟩

def adjoiningMap : VmMap 4096 where
  regions := [⟨4096, 4096, 3⟩, ⟨8192, 4096, 1⟩, ⟨16384, 4096, 3⟩]
  nonempty := by decide
  pages := by decide
  addressable := by decide
  ordered := by decide

theorem mplsCheckAccess_correct_within :
    mplsCheckAccess .lp64 4096 adjoiningMap.regions 8000 4096 1 none = 0 ∧
      mplsCheckAccess .lp64 4096 adjoiningMap.regions 8000 4096 1 (some 4096) =
        mplsCheckAccess .lp64 4096 adjoiningMap.regions 8000 4096 1 none := by
  have accessible : RangeAccessible adjoiningMap.regions 1 8000 4096 := by
    intro address lower upper
    by_cases first : address < 8192
    · refine ⟨⟨4096, 4096, 3⟩, by decide, ?_, rfl⟩
      simp only [Region.Contains, Region.stop]
      omega
    · refine ⟨⟨8192, 4096, 1⟩, by decide, ?_, rfl⟩
      simp only [Region.Contains, Region.stop]
      omega
  have hint : HintHolds 4096 adjoiningMap.regions 1 (some 4096) := by
    intro hint same address page
    cases same
    refine ⟨⟨4096, 4096, 3⟩, by decide, ?_, rfl⟩
    simp only [pageOf] at page
    simp only [Region.Contains, Region.stop]
    omega
  have visible : GapVisible .lp64 adjoiningMap.regions 1 8000 4096 :=
    Or.inl fun address lower upper => (accessible address lower upper).mapped
  obtain ⟨answer, same⟩ :=
    (mplsCheckAccess_correct_iff .lp64 adjoiningMap 1 (by decide) (by decide) hint).mpr visible
  exact ⟨answer.mpr accessible, same⟩

def gappedMap : VmMap 4096 where
  regions := [⟨4096, 4096, 3⟩, ⟨12288, 4096, 3⟩]
  nonempty := by decide
  pages := by decide
  addressable := by decide
  ordered := by decide

theorem mplsCheckAccess_overlooks_gap :
    mplsCheckAccess .lp64 4096 gappedMap.regions 4100 8192 1 none = 0 ∧
      ¬ RangeAccessible gappedMap.regions 1 4100 8192 := by
  constructor
  · rw [mplsCheckAccess_noHint_iff .lp64 gappedMap 1 (by decide) (by decide)]
    refine ⟨⟨⟨4096, 4096, 3⟩, by decide, ⟨by decide, by decide⟩, rfl⟩, fun _ => ⟨?_, ?_⟩⟩
    · exact ⟨⟨12288, 4096, 3⟩, by decide, by decide, by decide⟩
    · intro region member _ _
      rcases List.mem_pair.mp member with same | same <;> subst same <;> rfl
  · intro accessible
    obtain ⟨region, member, ⟨starts, below⟩, _⟩ := accessible 8192 (by decide) (by decide)
    simp only [Region.stop] at below
    rcases List.mem_pair.mp member with same | same <;> subst same <;> simp at starts below

/-! ## Ranges of at most a page -/

theorem VmMap.contains_page {page : Nat} (map : VmMap page) {region : Region}
    (member : region ∈ map.regions) {address other : Nat} (contains : region.Contains address)
    (same : pageOf page other = pageOf page address) : region.Contains other := by
  obtain ⟨starts, below⟩ := contains
  obtain ⟨⟨first, start⟩, count, size⟩ := map.pages region member
  have positive : 0 < page := by
    rcases Nat.eq_zero_or_pos page with rfl | positive
    · have nonempty := map.nonempty region member
      omega
    · exact positive
  have quotient : other / page = address / page := Nat.eq_of_mul_eq_mul_right positive same
  have stop : region.stop = (first + count) * page := by
    rw [Region.stop, start, size]
    ring
  constructor
  · rw [start, Nat.mul_comm, ← Nat.le_div_iff_mul_le positive, quotient,
      Nat.le_div_iff_mul_le positive]
    rwa [start, Nat.mul_comm] at starts
  · rw [stop, ← Nat.div_lt_iff_lt_mul positive, quotient, Nat.div_lt_iff_lt_mul positive]
    rwa [stop] at below

theorem mplsCheckAccess_short (abi : Abi) {page : Nat} (map : VmMap page) {adr size : Nat}
    (access : UInt32) {okadr : Option Nat} (positive : 1 ≤ size) (short : size ≤ page)
    (below : adr + size < abi.sizeMod) (hint : HintHolds page map.regions access okadr) :
    mplsCheckAccess abi page map.regions adr size access okadr = 0 ↔
      RangeAccessible map.regions access adr size := by
  rw [mplsCheckAccess_hint abi map access positive below.le hint,
    mplsCheckAccess_noHint_iff abi map access positive below.le]
  constructor
  · rintro ⟨⟨first, member, contains, permits⟩, checked⟩ address lower upper
    obtain ⟨⟨last, listed, ends⟩, all⟩ := checked below
    by_cases early : pageOf page address = pageOf page adr
    · exact ⟨first, member, map.contains_page member contains early, permits⟩
    · have late : pageOf page address = pageOf page (adr + size - 1) := by
        have least : adr / page ≤ address / page := Nat.div_le_div_right lower
        have most : address / page ≤ (adr + size - 1) / page := Nat.div_le_div_right (by omega)
        have next : (adr + size - 1) / page ≤ adr / page + 1 := by
          have step : (adr + page) / page = adr / page + 1 := Nat.add_div_right adr (by omega)
          rw [← step]
          exact Nat.div_le_div_right (by omega)
        have differs : address / page ≠ adr / page := fun same => early (by rw [pageOf, same]; rfl)
        have same : address / page = (adr + size - 1) / page := by omega
        rw [pageOf, same]
        rfl
      have inside := map.contains_page listed ends late
      obtain ⟨starts, stops⟩ := inside
      exact ⟨last, listed, ⟨starts, stops⟩, all last listed (by omega) (by omega)⟩
  · intro accessible
    exact accessible.passes abi positive

def vmProtWrite : UInt32 := 2

def Writable (regions : List Region) (adr size : Nat) : Bool :=
  (List.range size).all fun i => regions.any fun region =>
    decide (region.start ≤ adr + i) && decide (adr + i < region.stop) &&
      decide (region.protection &&& vmProtWrite = vmProtWrite)

theorem writable_iff (regions : List Region) (adr size : Nat) :
    Writable regions adr size = true ↔ RangeAccessible regions vmProtWrite adr size := by
  simp only [Writable, RangeAccessible, Accessible, Region.Contains, Region.Permits,
    List.all_eq_true, List.any_eq_true, List.mem_range, Bool.and_eq_true, decide_eq_true_eq]
  constructor
  · intro writable address lower upper
    obtain ⟨region, member, contains, permits⟩ := writable (address - adr) (by omega)
    have position : adr + (address - adr) = address := by omega
    rw [position] at contains
    exact ⟨region, member, contains, permits⟩
  · intro accessible i inside
    exact accessible (adr + i) (by omega) (by omega)

theorem writable_part {regions : List Region} {adr size start count : Nat}
    (writable : Writable regions adr size = true) (inside : start + count ≤ size) :
    Writable regions (adr + start) count = true := by
  rw [writable_iff] at writable ⊢
  exact fun address lower upper => writable address (by omega) (by omega)

end LegacySupport.Access
