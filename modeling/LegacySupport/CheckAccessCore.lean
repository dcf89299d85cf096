import LegacySupport.CInt

/-!
`__mpls_check_access` of `util.c`, over the regions of a task's virtual-memory map.
-/

namespace LegacySupport.Access

open CInt

structure Region where
  start : Nat
  size : Nat
  protection : UInt32
  deriving DecidableEq, Repr

def Region.stop (region : Region) : Nat := region.start + region.size

/-- A map: its regions are not empty, consist of whole pages, do not overlap and are listed in
increasing order. The end of a region is an address. -/
structure VmMap (page : Nat) where
  regions : List Region
  nonempty : ∀ region ∈ regions, 0 < region.size
  pages : ∀ region ∈ regions, page ∣ region.start ∧ page ∣ region.size
  addressable : ∀ region ∈ regions, region.stop < 2 ^ 64
  ordered : regions.Pairwise fun first second => first.stop ≤ second.start

/-- `mach_vm_region`: the lowest region that ends above an address. -/
def machVmRegion (regions : List Region) (address : Nat) : Option Region :=
  regions.find? fun region => address < region.stop

theorem machVmRegion_some {regions : List Region} {address : Nat} {region : Region}
    (found : machVmRegion regions address = some region) :
    region ∈ regions ∧ address < region.stop := by
  refine ⟨List.mem_of_find?_eq_some found, ?_⟩
  simpa using List.find?_some found

def checkAccessLoop (regions : List Region) (access : UInt32) (endAdr address : Nat) : Int :=
  if endAdr > address then
    match found : machVmRegion regions address with
    | none => -1
    | some info =>
        if endAdr ≤ info.start then -1
        else if access &&& ~~~info.protection ≠ 0 then -1
        else checkAccessLoop regions access endAdr info.stop
  else 0
termination_by endAdr - address
decreasing_by
  have later := (machVmRegion_some found).2
  omega

/-- `adr & ~pagemask`, the page size being a power of two. -/
def pageOf (pagesize adr : Nat) : Nat := adr / pagesize * pagesize

def mplsCheckAccess (abi : Abi) (pagesize : Nat) (regions : List Region) (adr size : Nat)
    (access : UInt32) (okadr : Option Nat) : Int :=
  let endAdr := abi.sizeT (adr + size)
  let samePage := okadr.any fun okadr =>
    pageOf pagesize adr = pageOf pagesize okadr ∧
      pageOf pagesize (abi.sizeT (endAdr - 1)) = pageOf pagesize okadr
  if samePage then 0
  else
    match machVmRegion regions adr with
    | none => -1
    | some info =>
        if adr < info.start then -1
        else if access &&& ~~~info.protection ≠ 0 then -1
        else checkAccessLoop regions access endAdr info.stop

end LegacySupport.Access
