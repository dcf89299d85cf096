import LegacySupport.UnpackCore

/-!
`copyfile_pack` of `copyfile.c`: the extended attributes of a file are collected in a header, in
two passes over the list of their names, and written as an AppleDouble file.
-/

namespace LegacySupport.Copyfile

open Bytes CInt CheckedMemory

def attrMaxSize : Nat := 128 * 1024
def xattrMaxattrlen : Nat := 4 * 1024
def intMax : Nat := 2147483647
def adhMacosx : List UInt8 := ascii "Mac OS X        "

structure PackSystem (Info : Type) where
  malloc : Nat → Bool
  flistxattr : Except Errno (List (List UInt8))
  fgetxattr : List UInt8 → Except Errno (List UInt8)
  qtnXattrName : List UInt8
  qtnFileToData : Info → Option (List UInt8)
  aclText : Option (List UInt8)
  writeFails : Nat → Nat → Bool
  copyfileStat : Int

structure Packing (Info : Type) where
  host : Host attrMaxSize
  system : PackSystem Info
  flags : Flags
  qinfo : Option Info
  inode : Nat

/-- The fields of the header that are not fixed, and the rest of its buffer, by offset. -/
structure FileHdr where
  finderLength : Nat
  rsrcOffset : Nat
  rsrcLength : Nat
  finfo : List UInt8
  debugTag : Nat
  totalSize : Nat
  dataStart : Nat
  dataLength : Nat
  numAttrs : Nat
  area : Memory

def FileHdr.initial (inode : Nat) : FileHdr where
  finderLength := finderinfosize
  rsrcOffset := 82
  rsrcLength := 0
  finfo := List.replicate 32 0
  debugTag := inode % 2 ^ 32
  totalSize := 0
  dataStart := 120
  dataLength := 0
  numAttrs := 0
  area := fun _ => 0

def FileHdr.fields (order : ByteOrder) (hdr : FileHdr) : List (List UInt8) :=
  [encode order 4 adhMagic, encode order 4 adhVersion, adhMacosx, encode order 2 2,
    encode order 4 adFinderinfo, encode order 4 50, encode order 4 hdr.finderLength,
    encode order 4 adResource, encode order 4 hdr.rsrcOffset, encode order 4 hdr.rsrcLength,
    hdr.finfo, [0, 0],
    encode order 4 attrHdrMagic, encode order 4 hdr.debugTag, encode order 4 hdr.totalSize,
    encode order 4 hdr.dataStart, encode order 4 hdr.dataLength, List.replicate 12 0,
    encode order 2 0, encode order 2 hdr.numAttrs]

def FileHdr.bytes (order : ByteOrder) (hdr : FileHdr) : List UInt8 := (hdr.fields order).flatten

def FileHdr.memory (host : Host attrMaxSize) (hdr : FileHdr) : Memory := fun address =>
  if address < host.buffer + 120 then (hdr.bytes host.order).getD (address - host.buffer) 0
  else hdr.area (address - host.buffer)

def cstring (rest : List UInt8) : List UInt8 := rest.takeWhile (· ≠ 0)

variable {Info : Type} (run : Packing Info)

/-! ## The names -/

structure Collected where
  hdr : FileHdr
  entry : Nat
  seenq : Bool

def isForkName (name : List UInt8) : Prop :=
  name = xattrFinderinfoName ∨ name = xattrResourceforkName

instance (name : List UInt8) : Decidable (isForkName name) :=
  inferInstanceAs (Decidable (_ ∨ _))

def FileHdr.addName (hdr : FileHdr) (entry : Nat) (name : List UInt8) (namelen : Nat) : FileHdr :=
  { hdr with
    area := stored hdr.area (entry + 8)
      ([0, 0, UInt8.ofNat namelen] ++ (name ++ [0]).take namelen)
    numAttrs := (hdr.numAttrs + 1) % 2 ^ 16
    dataStart := (hdr.dataStart + attrEntryLength namelen) % 2 ^ 32 }

def collectNames : Nat → List UInt8 → Nat → Collected → Option Collected
  | 0, _, _, state => some state
  | fuel + 1, rest, left, state =>
      if left = 0 then some state
      else
        let name := cstring rest
        let namelen := name.length + 1
        if isForkName name then collectNames fuel (rest.drop namelen) (left - namelen) state
        else
          let seenq := state.seenq || decide (name = run.system.qtnXattrName)
          let namelen := if xattrMaxnamelen + 1 < namelen then xattrMaxnamelen + 1 else namelen
          if left < namelen then none
          else
            let entry := state.entry + attrEntryLength namelen
            if attrMaxSize ≤ entry then none
            else
              collectNames fuel (rest.drop namelen) (left - namelen)
                ⟨state.hdr.addName state.entry name namelen, entry, seenq⟩

/-! ## The data -/

structure Packed where
  hdr : FileHdr
  entry : Nat
  error : Int
  /-- The pointer to the data of an attribute has been freed and not been set since. -/
  dangling : Bool
  hasrsrcfork : Bool

inductive Gathered
  | none
  | skip
  | data (bytes : List UInt8) (allocated : Bool)

/-- Without an access control list the size is set and the pointer is not; if the quarantine
information cannot be had, neither is. -/
def gather (name : List UInt8) (state : Packed) : Outcome Unit (Packed × Gathered) :=
  if name = xattrSecurityName then
    match run.system.aclText with
    | none => .next (state, .data [] false)
    | some text =>
        if run.system.malloc (text.length + 1) then .next (state, .data (text ++ [0]) true)
        else .next ({ state with dangling := false }, .data [] false)
  else
    match if name = run.system.qtnXattrName then run.qinfo else none with
    | some info =>
        match run.system.qtnFileToData info with
        | none => .fault ⟨0, 0⟩
        | some data =>
            if run.system.malloc data.length then .next (state, .data data true)
            else .fault ⟨0, 0⟩
    | none =>
        if name = xattrFinderinfoName then
          match run.system.fgetxattr name with
          | .error _ => .next (state, .none)
          | .ok value =>
              if 32 < value.length then .next (state, .none)
              else
                let finfo := value ++ state.hdr.finfo.drop value.length
                .next ({ state with hdr := { state.hdr with finfo := finfo } }, .none)
        else if name = xattrResourceforkName then
          .next ({ state with hasrsrcfork := true }, .none)
        else
          match run.system.fgetxattr name with
          | .error _ => .next (state, .skip)
          | .ok value =>
              if value.length = 0 then .next (state, .skip)
              else if xattrMaxattrlen < value.length then .next (state, .skip)
              else if run.system.malloc value.length then .next (state, .data value true)
              else .next ({ state with error := -1, dangling := false }, .none)

def placeData (state : Packed) (bytes : List UInt8) (allocated : Bool) : Outcome Unit Packed :=
  let hdr := state.hdr
  let offset := (hdr.dataStart + hdr.dataLength) % 2 ^ 32
  let area := stored hdr.area state.entry
    (encode run.host.order 4 offset ++ encode run.host.order 4 bytes.length)
  let tooLarge := attrMaxSize < offset ∨ attrMaxSize < offset + bytes.length
  let hdr := { hdr with
    dataLength := (hdr.dataLength + bytes.length) % 2 ^ 32
    area := if tooLarge then area else stored area offset bytes }
  if state.dangling ∧ ¬ allocated then .fault ⟨0, 0⟩
  else
    .next { state with
      hdr := hdr
      error := if tooLarge then 1 else state.error
      dangling := allocated }

def Packed.bump (state : Packed) : Packed :=
  { state with entry := state.entry + attrEntryLength (state.hdr.area (state.entry + 10)).toNat }

def collectData : Nat → List UInt8 → Nat → Packed → Outcome Unit Packed
  | 0, _, _, state => .next state
  | fuel + 1, rest, left, state =>
      if left = 0 then .next state
      else do
        let name := cstring rest
        let (state, gathered) ← gather run name state
        match gathered with
        | .none => collectData fuel (rest.drop (name.length + 1)) (left - (name.length + 1)) state
        | .skip =>
            collectData fuel (rest.drop (name.length + 1)) (left - (name.length + 1)) state.bump
        | .data bytes allocated => do
            let state ← placeData run state bytes allocated
            collectData fuel (rest.drop (name.length + 1)) (left - (name.length + 1)) state.bump

/-! ## The file -/

def FileHdr.finish (hdr : FileHdr) : FileHdr :=
  if 0 < hdr.dataLength then
    let offset := (hdr.dataStart + hdr.dataLength) % 2 ^ 32
    { hdr with
      rsrcOffset := offset
      finderLength := (offset + (2 ^ 32 - 50)) % 2 ^ 32
      totalSize := offset }
  else hdr

def pwrite (file : List UInt8) (bytes : List UInt8) (offset : Nat) : List UInt8 :=
  if bytes = [] then file
  else
    file.take offset ++ List.replicate (offset - file.length) 0 ++ bytes ++
      file.drop (offset + bytes.length)

def packRsrcfork (hdr : FileHdr) (dst : List UInt8) : Int × FileHdr × List UInt8 :=
  match run.system.fgetxattr xattrResourceforkName with
  | .error _ => (-1, hdr, dst)
  | .ok data =>
      if intMax < data.length then (-1, hdr, dst)
      else if ¬ run.system.malloc data.length then (-1, hdr, dst)
      else
        let dst := if run.system.writeFails data.length hdr.rsrcOffset then dst
          else pwrite dst data hdr.rsrcOffset
        (0, { hdr with rsrcLength := data.length % 2 ^ 32 }, dst)

structure NameList where
  offset : Nat
  names : List UInt8
  listsize : Int

def nameList : NameList :=
  let offset := if run.flags.acl ∧ run.system.aclText.isSome then xattrSecurityName.length + 1
    else 0
  let acl := (xattrSecurityName ++ [0]).take offset
  if ¬ run.flags.xattr then ⟨offset, acl, 0⟩
  else
    match run.system.flistxattr with
    | .error _ => ⟨offset, acl, offset - 1⟩
    | .ok names =>
        let bytes := names.flatMap (· ++ [0])
        if attrMaxHdrSize - offset < bytes.length then ⟨offset, acl, offset - 1⟩
        else ⟨offset, acl ++ bytes, offset + bytes.length⟩

/-- Quarantine information that is not among the names is copied over the list, at its start or
behind the access control list. -/
def withQuarantine (list : NameList) (seenq : Bool) : List UInt8 :=
  if run.qinfo.isSome ∧ ¬ seenq then
    list.names.take list.offset ++ run.system.qtnXattrName ++ [0] ++
      list.names.drop (list.offset + run.system.qtnXattrName.length + 1)
  else list.names

/-- The header is swapped in place and written, and so is left as it is written. -/
def writeHeader (hdr : FileHdr) (error : Int) (dst : List UInt8) :
    Outcome Unit (Int × List UInt8) := do
  let region : Region := ⟨run.host.buffer, attrMaxSize⟩
  let memory ← swapAdhdr run.host region (hdr.memory run.host)
  let memory ← swapAttrhdr run.host region memory
  let bytes := bytesAt memory run.host.buffer hdr.rsrcOffset
  if run.system.writeFails bytes.length 0 then return (-1, dst)
  else
    let error := if error ≠ 0 then error else run.system.copyfileStat
    return (error, pwrite dst bytes 0)

def copyfilePack (dst : List UInt8) : Outcome Unit (Int × List UInt8) :=
  if ¬ run.system.malloc attrMaxSize ∨ ¬ run.system.malloc attrMaxHdrSize then .next (-1, dst)
  else
    let list := nameList run
    let left := list.listsize.toNat
    match collectNames run left list.names left ⟨FileHdr.initial run.inode, 120, false⟩ with
    | none => .next (-1, dst)
    | some collected => do
        let names := withQuarantine run list collected.seenq
        let packed ← collectData run left names left ⟨collected.hdr, 120, 0, false, false⟩
        let hdr := packed.hdr.finish
        if packed.hasrsrcfork then
          match packRsrcfork run hdr dst with
          | (0, hdr, dst) => writeHeader run hdr 0 dst
          | (error, _, dst) => return (error, dst)
        else writeHeader run hdr packed.error dst

end LegacySupport.Copyfile
