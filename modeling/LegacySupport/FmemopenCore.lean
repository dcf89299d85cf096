import LegacySupport.CInt

/-!
The memory streams of `fmemopen.c`: opening one, and the read, write and seek callbacks
that stdio calls on its cookie. A callback reports the regions of the buffer it accesses.
-/

namespace LegacySupport.Fmemopen

open CInt

def oWronly : UInt32 := 1
def oRdwr : UInt32 := 2

def seekSet : Int32 := 0
def seekCur : Int32 := 1
def seekEnd : Int32 := 2

structure Cookie where
  size : Nat
  buf : Vector UInt8 size
  own : Bool
  bin : Bool
  len : Nat
  off : Nat

/-! ## Opening -/

/-- `__sflags` of the C library: the flags of a mode it accepts. It accepts only modes that
start with one of three letters. -/
structure ModeParser where
  sflags : List Char → Option UInt32
  leading : ∀ mode flags, sflags mode = some flags →
    mode.head? = some 'r' ∨ mode.head? = some 'w' ∨ mode.head? = some 'a'

structure OpenArgs (abi : Abi) where
  size : Nat
  fits : size < abi.sizeMod
  buf : Option (Vector UInt8 size)
  mode : List Char

/-- The outcomes of the library calls: the two allocations, with what the second one's memory
holds, the memory of the first one at `len` and `off`, and `funopen`. -/
structure OpenEnv (size : Nat) where
  cookieGranted : Bool
  garbageLen : Nat
  bufGranted : Option (Vector UInt8 size)
  streamGranted : Bool

inductive OpenError
  | einval
  | enomem
  deriving DecidableEq, Repr

structure Stream where
  readable : Bool
  writable : Bool
  append : Bool
  cookie : Cookie

def strnlen {size : Nat} (buf : Vector UInt8 size) : Nat :=
  (buf.toList.takeWhile (· ≠ 0)).length

def terminateFirst {size : Nat} (buf : Vector UInt8 size) : Vector UInt8 size :=
  buf.mapFinIdx fun i byte _ => if i = 0 then 0 else byte

def openCookie {abi : Abi} (args : OpenArgs abi) (garbageLen : Nat) (own : Bool)
    (memory : Vector UInt8 args.size) : Cookie :=
  let lead := args.mode.head?
  let buf := if own || lead == some 'w' then terminateFirst memory else memory
  let cookie : Cookie :=
    { size := args.size, buf, own, bin := args.mode.contains 'b', len := garbageLen, off := 0 }
  match lead with
  | some 'a' => { cookie with len := strnlen buf, off := strnlen buf }
  | some 'r' => { cookie with len := args.size }
  | some 'w' => { cookie with len := 0 }
  | _ => cookie

def fmemopen {abi : Abi} (parser : ModeParser) (args : OpenArgs abi) (env : OpenEnv args.size) :
    Except OpenError Stream :=
  if args.size = 0 then .error .einval
  else match parser.sflags args.mode with
    | none => .error .einval
    | some flags =>
        if flags &&& oRdwr = 0 && args.buf.isNone then .error .einval
        else if !env.cookieGranted then .error .enomem
        else
          let own := args.buf.isNone
          match (if own then env.bufGranted else args.buf) with
          | none => .error .enomem
          | some memory =>
              if !env.streamGranted then .error .enomem
              else .ok
                -- `O_RDONLY` is zero, so every stream gets the write callback
                { readable := flags &&& oWronly = 0
                  writable := true
                  append := args.mode.head? == some 'a'
                  cookie := openCookie args env.garbageLen own memory }

/-! ## Callbacks -/

structure Region where
  start : Nat
  count : Nat
  deriving DecidableEq, Repr

def Region.Within (region : Region) (limit : Nat) : Prop :=
  region.count = 0 ∨ region.start + region.count ≤ limit

structure Done where
  cookie : Cookie
  value : Int
  delivered : List Region
  accessed : List Region

def clip (abi : Abi) (nbytes : Int32) (available : Nat) : Int :=
  if abi.sizeT nbytes.toInt > available then int available else nbytes.toInt

def fmemopenRead (abi : Abi) (ck : Cookie) (nbytes : Int32) : Done :=
  let nbytes := clip abi nbytes (abi.sizeT (ck.len - ck.off))
  if nbytes = 0 then ⟨ck, 0, [], []⟩
  else
    { cookie := { ck with off := abi.sizeT (ck.off + nbytes) }
      value := nbytes
      delivered := [⟨ck.off, abi.sizeT nbytes⟩]
      accessed := [] }

def Cookie.copyIn (ck : Cookie) (data : Nat → UInt8) (start count : Nat) : Cookie :=
  { ck with buf := ck.buf.mapFinIdx fun i byte _ =>
      if start ≤ i ∧ i < start + count then data (i - start) else byte }

def Cookie.advance (ck : Cookie) (off : Nat) : Cookie :=
  { ck with off, len := if off > ck.len then off else ck.len }

def Cookie.byteAt (ck : Cookie) (i : Nat) : UInt8 := ck.buf.toList.getD i 0

def fmemopenWrite (abi : Abi) (ck : Cookie) (nbytes : Int32) (data : Nat → UInt8) : Done :=
  let nbytes := clip abi nbytes (abi.sizeT (ck.size - ck.off))
  if nbytes = 0 then ⟨ck, 0, [], []⟩
  else
    let copied : Region := ⟨ck.off, abi.sizeT nbytes⟩
    let ck := (ck.copyIn data copied.start copied.count).advance (abi.sizeT (ck.off + nbytes))
    if ck.bin = false ∧ ck.off < ck.size then
      let last : Region := ⟨abi.sizeT (ck.off - 1), 1⟩
      if ck.byteAt last.start ≠ 0 then
        { cookie := ck.copyIn (fun _ => 0) ck.off 1
          value := nbytes
          delivered := []
          accessed := [copied, last, ⟨ck.off, 1⟩] }
      else ⟨ck, nbytes, [], [copied, last]⟩
    else ⟨ck, nbytes, [], [copied]⟩

/-- `a > b` between an `fpos_t` and a `size_t`: a 32-bit `size_t` is converted to the signed
64-bit type, with a 64-bit one the comparison is unsigned. -/
def exceeds (abi : Abi) (position : Int) (limit : Nat) : Bool :=
  match abi with
  | .ilp32 => position > limit
  | .lp64 => toUnsigned 64 position > limit

/-- `off + offset` in the common type of a `size_t` and an `fpos_t`. Signed overflow wraps. -/
def sumOff (abi : Abi) (off : Nat) (offset : Int64) : Int :=
  match abi with
  | .ilp32 => int64 (off + offset.toInt)
  | .lp64 => toUnsigned 64 (off + offset.toInt)

def fmemopenSeek (abi : Abi) (ck : Cookie) (offset : Int64) (whence : Int32) :
    Except OpenError Cookie :=
  if whence = seekSet then
    if exceeds abi offset.toInt ck.size then .error .einval
    else .ok { ck with off := abi.sizeT offset.toInt }
  else if whence = seekCur then
    if exceeds abi (sumOff abi ck.off offset) ck.size then .error .einval
    else .ok { ck with off := abi.sizeT (sumOff abi ck.off offset) }
  else if whence = seekEnd then
    if offset > 0 || exceeds abi (-offset).toInt ck.len then .error .einval
    else .ok { ck with off := abi.sizeT (sumOff abi ck.len offset) }
  else .error .einval

inductive Callback
  | read (nbytes : Int32)
  | write (nbytes : Int32) (data : Nat → UInt8)
  | seek (offset : Int64) (whence : Int32)

def perform (abi : Abi) (ck : Cookie) : Callback → Done
  | .read nbytes => fmemopenRead abi ck nbytes
  | .write nbytes data => fmemopenWrite abi ck nbytes data
  | .seek offset whence =>
      match fmemopenSeek abi ck offset whence with
      | .ok ck => ⟨ck, int64 ck.off, [], []⟩
      | .error _ => ⟨ck, -1, [], []⟩

end LegacySupport.Fmemopen
