import LegacySupport.Bytes
import LegacySupport.CInt

/-!
The control-message fixes of `packet.c` in the build that reformats timestamps: a 64-bit
process on a kernel that may store a `timeval` with 32-bit seconds. Pointers into the control
buffer are offsets; a walk over it is the list of headers it visits.
-/

namespace LegacySupport.Packet

open CInt Bytes

def solSocket : Nat := 0xffff
def scmTimestamp : Nat := 2

abbrev sizeofCmsghdr : Nat := 12
abbrev sizeofTimeval : Nat := 16
abbrev sizeofCbuf : Nat := 1024

def align32 (length : Nat) : Nat := (length + 3) / 4 * 4

structure Cmsghdr where
  cmsgLen : Nat
  cmsgLevel : Nat
  cmsgType : Nat
  deriving DecidableEq, Repr

structure Msghdr where
  msgControl : Option (List UInt8)
  msgControllen : Nat

def Msghdr.memory (msg : Msghdr) : List UInt8 := msg.msgControl.getD []

def readCmsghdr (order : ByteOrder) (memory : List UInt8) (cmsg : Nat) : Cmsghdr where
  cmsgLen := decode order (slice memory cmsg 4)
  cmsgLevel := decode order (slice memory (cmsg + 4) 4)
  cmsgType := decode order (slice memory (cmsg + 8) 4)

def Cmsghdr.bytes (order : ByteOrder) (header : Cmsghdr) : List UInt8 :=
  encode order 4 header.cmsgLen ++ encode order 4 header.cmsgLevel ++ encode order 4 header.cmsgType

def headerAt (msg : Msghdr) (cmsg : Nat) : Option Nat :=
  if cmsg + sizeofCmsghdr > msg.msgControllen then none else some cmsg

def cmsgFirsthdr (msg : Msghdr) : Option Nat := headerAt msg 0

def cmsgNxthdr (order : ByteOrder) (msg : Msghdr) (cmsg : Nat) : Option Nat :=
  headerAt msg (cmsg + align32 (readCmsghdr order msg.memory cmsg).cmsgLen)

def cmsgData (cmsg : Nat) : Nat := cmsg + align32 sizeofCmsghdr

def cmsgDatalen (header : Cmsghdr) : Int := header.cmsgLen - align32 sizeofCmsghdr

def cmsgWalk (order : ByteOrder) (msg : Msghdr) : Nat → Option Nat → Option (List Nat)
  | _, none => some []
  | 0, some _ => none
  | fuel + 1, some cmsg => (cmsgWalk order msg fuel (cmsgNxthdr order msg cmsg)).map (cmsg :: ·)

/-- Every header of positive length takes the walk on, so only one of length zero can use up
the fuel; the loops of the source do not end then. -/
def cmsgHeaders (order : ByteOrder) (msg : Msghdr) : Option (List Nat) :=
  cmsgWalk order msg (msg.msgControllen + 1) (cmsgFirsthdr msg)

/-! ## Timestamps -/

structure Timeval where
  tvSec : Int
  tvUsec : Int
  deriving DecidableEq, Repr

def readTimeval (order : ByteOrder) (data : List UInt8) : Timeval where
  tvSec := toSigned 64 (decode order (slice data 0 8))
  tvUsec := toSigned 32 (decode order (slice data 8 4))

def writeTimeval (order : ByteOrder) (tv : Timeval) (old : List UInt8) : List UInt8 :=
  encode order 8 (toUnsigned 64 tv.tvSec) ++ encode order 4 (toUnsigned 32 tv.tvUsec) ++ old.drop 12

/-- `struct timeval_3232`, with unsigned seconds to get past 2038. -/
def readTimeval3232 (order : ByteOrder) (data : List UInt8) : Timeval where
  tvSec := decode order (slice data 0 4)
  tvUsec := toSigned 32 (decode order (slice data 4 4))

def readTimeval6432 (order : ByteOrder) (data : List UInt8) : Timeval where
  tvSec := toSigned 64 (decode order (slice data 0 8))
  tvUsec := toSigned 32 (decode order (slice data 8 4))

/-- What is stored over the `old` bytes of a `timeval`. The case of a 16-byte `timeval_6464`
is that of the native form here. -/
def fetchCmsgTimeval (order : ByteOrder) (memory : List UInt8) (cmsg : Nat) (old : List UInt8) :
    List UInt8 :=
  let datalen := int (cmsgDatalen (readCmsghdr order memory cmsg))
  let data := memory.drop (cmsgData cmsg)
  if datalen = sizeofTimeval then data.take sizeofTimeval
  else if datalen = 8 then writeTimeval order (readTimeval3232 order data) old
  else if datalen = 12 then writeTimeval order (readTimeval6432 order data) old
  else List.replicate sizeofTimeval 0

/-! ## The two passes -/

def checkStep (order : ByteOrder) (memory : List UInt8) (state : Bool × Nat) (cmsg : Nat) :
    Bool × Nat :=
  let header := readCmsghdr order memory cmsg
  if header.cmsgLevel = solSocket then
    let lenadj :=
      if header.cmsgType = scmTimestamp then int (sizeofTimeval - cmsgDatalen header) else 0
    (if lenadj ≠ 0 then true else state.1,
      toUnsigned 32 (state.2 + toUnsigned 32 (header.cmsgLen + lenadj)))
  else state

def checkCmsgLengths (order : ByteOrder) (memory : List UInt8) (headers : List Nat) : Bool × Nat :=
  headers.foldl (checkStep order memory) (false, 0)

/-- One round of `fix_cmsg_formats`, with everything written so far. `cbuf` is what the local
buffer, and the memory behind it, holds before. -/
def fixStep (order : ByteOrder) (memory : List UInt8) (cbuf : Nat → UInt8) (written : List UInt8)
    (cmsg : Nat) : List UInt8 :=
  let header := readCmsghdr order memory cmsg
  if header.cmsgLevel = solSocket ∧ header.cmsgType = scmTimestamp then
    let newhdr := { header with cmsgLen := sizeofCmsghdr + sizeofTimeval }
    let tvp := written.length + sizeofCmsghdr
    let old := (List.range sizeofTimeval).map fun i => cbuf (tvp + i)
    written ++ newhdr.bytes order ++ fetchCmsgTimeval order memory cmsg old
  else written ++ slice memory cmsg header.cmsgLen

structure Fixed where
  written : Option (List UInt8)
  copiedBack : Nat
  message : Msghdr

def fixCmsgFormats (order : ByteOrder) (cbuf : Nat → UInt8) (msg : Msghdr) (headers : List Nat)
    (newControllen : Nat) : Fixed :=
  if newControllen > sizeofCbuf then ⟨none, 0, msg⟩
  else
    let written := headers.foldl (fixStep order msg.memory cbuf) []
    if written.length ≠ newControllen then ⟨some written, 0, msg⟩
    else
      { written := some written
        copiedBack := newControllen
        message :=
          { msgControl := msg.msgControl.map fun memory => written ++ memory.drop newControllen
            msgControllen := newControllen } }

/-! ## Receiving -/

/-- What the system call returns: a negative value, or a stream that fits the space given. -/
structure Reply (room : Nat) where
  ret : Int
  stream : List UInt8
  fits : stream.length ≤ room

def Msghdr.initControllen (msg : Msghdr) : Nat :=
  if msg.msgControl.isSome then msg.msgControllen else 0

def Msghdr.receive (msg : Msghdr) (stream : List UInt8) : Msghdr where
  msgControl := msg.msgControl.map fun memory => stream ++ memory.drop stream.length
  msgControllen := stream.length

structure Report where
  ret : Int
  predicted : Nat
  fixed : Fixed

def recvmsgInternal (order : ByteOrder) (cbuf : Nat → UInt8) (message : Msghdr)
    (reply : Reply message.initControllen) : Option Report :=
  if reply.ret < 0 then some ⟨reply.ret, 0, none, 0, message⟩
  else
    let received := message.receive reply.stream
    if received.msgControllen = 0 then some ⟨reply.ret, 0, none, 0, received⟩
    else
      (cmsgHeaders order received).map fun headers =>
        let checked := checkCmsgLengths order received.memory headers
        if checked.1 = true ∧ checked.2 ≤ message.initControllen then
          ⟨reply.ret, checked.2, fixCmsgFormats order cbuf received headers checked.2⟩
        else ⟨reply.ret, checked.2, none, 0, received⟩

end LegacySupport.Packet
