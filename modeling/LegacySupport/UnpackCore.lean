import LegacySupport.CInt
import LegacySupport.CheckedMemory

/-!
`copyfile_unpack` of `copyfile.c`: an AppleDouble file is read into a buffer, which is then taken
apart in place. Pointers are addresses, and every access to the buffer is checked.
-/

namespace LegacySupport.Copyfile

open Bytes CInt CheckedMemory

abbrev Errno := Nat

def einval : Errno := 22
def enomem : Errno := 12
def eperm : Errno := 1
def enotsup : Errno := 45

def adhMagic : Nat := 0x00051607
def adhVersion : Nat := 0x00020000
def adResource : Nat := 2
def adFinderinfo : Nat := 9
def attrHdrMagic : Nat := 0x41545452
def attrMaxHdrSize : Nat := 65536 + 18
def finderinfosize : Nat := 32
def xattrMaxnamelen : Nat := 127

def ascii (text : String) : List UInt8 := text.toList.map fun char => UInt8.ofNat char.toNat

def xattrSecurityName : List UInt8 := ascii "com.apple.acl.text"
def xattrFinderinfoName : List UInt8 := ascii "com.apple.FinderInfo"
def xattrResourceforkName : List UInt8 := ascii "com.apple.ResourceFork"

def attrEntryLength (namelen : Nat) : Nat := (12 - 1 + namelen + 3) / 4 * 4

/-- The build, and where a buffer of at most this size has been allocated. The last page of the
address space is never given out. -/
structure Host (size : Nat) where
  abi : Abi
  order : ByteOrder
  buffer : Nat
  allocated : 0 < buffer
  room : buffer + size + 4096 ≤ abi.sizeMod

def Host.advance {size : Nat} (host : Host size) (pointer delta : Nat) : Nat :=
  (pointer + delta) % host.abi.sizeMod

structure Flags where
  acl : Bool
  xattr : Bool
  stat : Bool

/-- What the function calls. A target is a destination file with all that the calls can see; an
`Info` is quarantine information. -/
structure System (Target Info : Type) where
  malloc : Target → Nat → Bool
  readError : Target → Nat → Nat → Option Errno
  flistxattr : Target → Except Errno (List (List UInt8))
  fremovexattr : Target → List UInt8 → Target
  fsetxattr : Target → List UInt8 → List UInt8 → Except Errno Target
  qtnXattrName : List UInt8
  qtnFileAlloc : Target → Bool
  qtnFileInitWithData : List UInt8 → Option Info
  qtnFileApplyToFd : Target → Info → Target
  /-- `acl_from_text`, and the setting of the property if it gives one; whether that fails. -/
  setAcl : Target → List UInt8 → Bool × Target
  fstat : Target → Option Bool
  futimes : Target → Target
  copyfileStat : Target → Int × Target

structure State (Target : Type) where
  target : Target
  err : Errno

structure Unpacking (Target Info : Type) where
  host : Host attrMaxHdrSize
  system : System Target Info
  flags : Flags
  qinfo : Option Info
  file : List UInt8

variable {Target Info Exit : Type} {size : Nat}

abbrev Step (Target Value : Type) := Outcome (Int × State Target) Value

def hdrsize (file : List UInt8) : Nat :=
  if file.length < attrMaxHdrSize then file.length else attrMaxHdrSize

def headerRegion (host : Host attrMaxHdrSize) (file : List UInt8) : Region :=
  ⟨host.buffer, hdrsize file⟩

def placed (address : Nat) (bytes : List UInt8) : Memory := fun other =>
  bytes.getD (other - address) 0

def pread (system : System Target Info) (target : Target) (file : List UInt8)
    (count offset : Nat) : Except Errno (List UInt8) :=
  match system.readError target count offset with
  | some error => .error error
  | none => .ok (slice file offset count)

/-! ## Byte order -/

def reverseFields (region : Region) (memory : Memory) : List (Nat × Nat) → Outcome Exit Memory
  | [] => .next memory
  | (width, address) :: rest => do
      let memory ← reverse region width memory address
      reverseFields region memory rest

def swapAdEntries (region : Region) : Nat → Nat → Memory → Outcome Exit Memory
  | 0, _, memory => .next memory
  | count + 1, entry, memory => do
      let memory ← reverseFields region memory [(4, entry), (4, entry + 4), (4, entry + 8)]
      swapAdEntries region count (entry + 12) memory

def swapAdhdr (host : Host size) (region : Region) (memory : Memory) : Outcome Exit Memory :=
  let adh := host.buffer
  match host.order with
  | .big => .next memory
  | .little => do
      let magic ← load region .little 4 memory adh
      let count ← load region (if magic = adhMagic then .little else .big) 2 memory (adh + 24)
      let memory ← reverseFields region memory [(4, adh), (4, adh + 4), (2, adh + 24)]
      swapAdEntries region count (adh + 26) memory

def swapAttrEntries (host : Host size) (region : Region) : Nat → Nat → Memory → Outcome Exit Memory
  | 0, _, memory => .next memory
  | count + 1, entry, memory => do
      let namelen ← load region .little 1 memory (entry + 10)
      let next := host.advance entry (attrEntryLength namelen)
      let memory ← reverseFields region memory [(4, entry), (4, entry + 4), (2, entry + 8)]
      swapAttrEntries host region count next memory

def swapAttrhdr (host : Host size) (region : Region) (memory : Memory) : Outcome Exit Memory :=
  let ah := host.buffer
  match host.order with
  | .big => .next memory
  | .little => do
      let magic ← load region .little 4 memory (ah + 84)
      let count ← load region (if magic = attrHdrMagic then .little else .big) 2 memory (ah + 118)
      let memory ← reverseFields region memory
        [(4, ah + 84), (4, ah + 88), (4, ah + 92), (4, ah + 96), (4, ah + 100), (2, ah + 116),
          (2, ah + 118)]
      swapAttrEntries host region count (ah + 120) memory

/-! ## Attributes -/

section Unpack

variable (run : Unpacking Target Info) (region : Region)

def removeAttributes (state : State Target) : Step Target (State Target) :=
  if ¬ run.flags.xattr then .next state
  else
    match run.system.flistxattr state.target with
    | .error error => if error ≠ enotsup ∧ error ≠ eperm then .exit (0, state) else .next state
    | .ok [] => .next state
    | .ok (first :: rest) =>
        let names := first :: rest
        let bytes := (names.map fun name => name.length + 1).sum
        if ¬ run.system.malloc state.target bytes then .exit (0, { state with err := enomem })
        else .next { state with target := names.foldl run.system.fremovexattr state.target }

def extractQuarantine (memory : Memory) (dataptr length : Nat) (state : State Target) :
    Step Target (State Target) :=
  match run.qinfo with
  | some info => .next { state with target := run.system.qtnFileApplyToFd state.target info }
  | none =>
      if run.system.qtnFileAlloc state.target then do
        let data ← loadBytes region memory dataptr length
        match run.system.qtnFileInitWithData data with
        | none => .next state
        | some info => .next { state with target := run.system.qtnFileApplyToFd state.target info }
      else .next state

/-- The index of the last byte is an unsigned `int`. The text is copied if it does not end in a
NUL, and `strlcpy` reads its source through the NUL. -/
def extractAcl (memory : Memory) (dataptr length : Nat) (state : State Target) :
    Step Target (State Target) := do
  let last ← load region run.host.order 1 memory
    (run.host.advance dataptr ((length + (2 ^ 32 - 1)) % 2 ^ 32))
  if last ≠ 0 ∧ ¬ run.system.malloc state.target (length + 1) then .exit (-1, state)
  else do
    let string ← loadString region memory dataptr
    let text := if last ≠ 0 then string.take length else string
    match run.system.setAcl state.target text with
    | (true, target) => .exit (-1, { state with target := target })
    | (false, target) => .next { state with target := target }

def extractAttribute (memory : Memory) (name : List UInt8) (dataptr length : Nat)
    (state : State Target) : Step Target (State Target) :=
  if name = run.system.qtnXattrName then extractQuarantine run region memory dataptr length state
  else if run.flags.acl ∧ name = xattrSecurityName then
    extractAcl run region memory dataptr length state
  else if run.flags.xattr then do
    let data ← loadBytes region memory dataptr length
    match run.system.fsetxattr state.target name data with
    | .error _ => .exit (-1, state)
    | .ok target => .next { state with target := target }
  else .next state

def extractEntry (memory : Memory) (entry : Nat) (state : State Target) :
    Step Target (State Target) :=
  let corrupt : Step Target (State Target) := .exit (-1, { state with err := einval })
  if region.finish ≤ entry ∨ entry < region.start then corrupt
  else if region.finish < run.host.advance entry 12 then corrupt
  else do
    let namelen ← load region run.host.order 1 memory (entry + 10)
    if namelen < 2 then corrupt
    else if xattrMaxnamelen + 1 < namelen then corrupt
    else if region.finish < run.host.advance entry (11 + namelen) then corrupt
    else do
      let last ← load region run.host.order 1 memory (entry + 11 + namelen - 1)
      if last ≠ 0 then corrupt
      else do
        let name ← loadString region memory (entry + 11)
        let length ← load region run.host.order 4 memory (entry + 4)
        let offset ← load region run.host.order 4 memory entry
        let dataptr := run.host.advance region.start offset
        if region.finish < dataptr ∨ dataptr < region.start then corrupt
        else if region.finish < run.host.advance dataptr length ∨
            run.host.advance dataptr length < region.start ∨ region.size < length then corrupt
        else extractAttribute run region memory name dataptr length state

def extractEntries (memory : Memory) : Nat → Nat → State Target → Step Target (State Target)
  | 0, _, state => .next state
  | count + 1, entry, state => do
      let state ← extractEntry run region memory entry state
      let namelen ← load region run.host.order 1 memory (entry + 10)
      extractEntries memory count (run.host.advance entry (attrEntryLength namelen)) state

def extractAttributes (memory : Memory) (state : State Target) :
    Step Target (Memory × State Target) := do
  let length ← load region run.host.order 4 memory (region.start + 34)
  if finderinfosize < length then
    if region.size < 120 then .exit (-1, state)
    else do
      let memory ← swapAttrhdr run.host region memory
      let magic ← load region run.host.order 4 memory (region.start + 84)
      if magic ≠ attrHdrMagic then .exit (-1, state)
      else do
        let count ← load region run.host.order 2 memory (region.start + 118)
        let state ← extractEntries run region memory count (region.start + 120) state
        return (memory, state)
  else return (memory, state)

/-! ## FinderInfo and resource fork -/

def emptyfinfo : List UInt8 := List.replicate 32 0

def extractFinderInfo (memory : Memory) (state : State Target) :
    Step Target (State Target) := do
  let offset ← load region run.host.order 4 memory (region.start + 30)
  if run.host.abi.sizeT ((region.size : Int) - 32) < offset then .exit (-1, state)
  else do
    let info ← loadBytes region memory (run.host.advance region.start offset) 32
    if info ≠ emptyfinfo then
      match run.system.fsetxattr state.target xattrFinderinfoName info with
      | .error _ => .exit (-1, state)
      | .ok target => .next { state with target := target }
    else .next state

/-- The resource fork that a kernel makes up for a file without resources. -/
def emptyRsrcforkHeader : List UInt8 :=
  encode .big 4 256 ++ encode .big 4 256 ++ encode .big 4 0 ++ encode .big 4 30 ++
    (ascii "This resource fork intentionally left blank   " ++ List.replicate 66 0) ++
    List.replicate 128 0 ++
    encode .big 4 256 ++ encode .big 4 256 ++ encode .big 4 0 ++ encode .big 4 30 ++
    encode .big 4 0 ++ encode .big 2 0 ++ [0, 0] ++ encode .big 2 28 ++ encode .big 2 30 ++
    encode .big 2 65535

def writeResourceFork (length offset : Nat) (state : State Target) : Int × State Target :=
  if ¬ run.system.malloc state.target length then (-1, state)
  else
    match run.system.fstat state.target with
    | none => (-1, state)
    | some directory =>
        match pread run.system state.target run.file length offset with
        | .error _ => (-1, state)
        | .ok data =>
            if data.length < length then (-1, state)
            else
              match run.system.fsetxattr state.target xattrResourceforkName data with
              | .error _ => if directory ∧ data = emptyRsrcforkHeader then (0, state) else (-1, state)
              | .ok target =>
                  if run.flags.stat then (0, { state with target := target })
                  else (0, { state with target := run.system.futimes target })

def extractResourceFork (memory : Memory) (state : State Target) :
    Step Target (Int × State Target) := do
  let type ← load region run.host.order 4 memory (region.start + 38)
  let length ← load region run.host.order 4 memory (region.start + 46)
  if type = adResource ∧ 0 < length then do
    let offset ← load region run.host.order 4 memory (region.start + 42)
    return writeResourceFork run length offset state
  else return (0, state)

/-! ## The function -/

/-- The header is big-endian in the file, and read so before it is swapped. -/
def checkHeader (memory : Memory) (state : State Target) : Step Target Unit :=
  if region.size < 84 - 2 then .exit (-1, state)
  else do
    let magic ← load region .big 4 memory region.start
    if magic ≠ adhMagic then .exit (-1, state)
    else do
      let version ← load region .big 4 memory (region.start + 4)
      if version ≠ adhVersion then .exit (-1, state)
      else do
        let numEntries ← load region .big 2 memory (region.start + 24)
        if numEntries ≠ 2 then .exit (-1, state)
        else do
          let type ← load region .big 4 memory (region.start + 26)
          if type ≠ adFinderinfo then .exit (-1, state) else return ()

def unpackHeader (memory : Memory) (state : State Target) : Step Target (Int × State Target) := do
  checkHeader region memory state
  let memory ← swapAdhdr run.host region memory
  let state ← removeAttributes run state
  let (memory, state) ← extractAttributes run region memory state
  let state ← extractFinderInfo run region memory state
  let (error, state) ← extractResourceFork run region memory state
  if run.flags.stat then
    let (error, target) := run.system.copyfileStat state.target
    return (error, { state with target := target })
  else return (error, state)

def copyfileUnpack (state : State Target) : Step Target (Int × State Target) :=
  let region := headerRegion run.host run.file
  if ¬ run.system.malloc state.target region.size then .exit (-1, state)
  else
    match pread run.system state.target run.file region.size 0 with
    | .error _ => .exit (-1, state)
    | .ok bytes =>
        if bytes.length < region.size then .exit (-1, state)
        else unpackHeader run region (placed run.host.buffer bytes) state

end Unpack

end LegacySupport.Copyfile
