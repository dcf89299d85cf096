import LegacySupport.FileBytes
import LegacySupport.UnpackCore

/-!
`copyfile_data` of `copyfile.c`: what is read from the source is written to the destination, in
pieces as the system takes them, and the size is set at the end.
-/

namespace LegacySupport.Copyfile

open FileBytes

def eagain : Errno := 35
def ecanceled : Errno := 89
def sIfmt : UInt32 := 0o170000
def sIfreg : UInt32 := 0o100000
def onegig : Nat := 2 ^ 30
def copyfileErr : Int := 3
def copyfileProgress : Int := 4
def copyfileContinue : Int := 0
def copyfileSkip : Int := 1
def copyfileQuit : Int := 2

structure SourceStat where
  mode : UInt32
  size : Nat
  blksize : Nat

inductive Answer
  | count (n : Nat)
  | failed (error : Errno)
  deriving DecidableEq

/-- What the calls answer, those of the loops by how many of their kind have been made before. A
callback is given the stage, and leaves an error number. -/
structure DataSystem where
  malloc : Nat → Bool
  srcIosize : Option Nat
  dstIosize : Option Nat
  read : Nat → Answer
  write : Nat → Answer
  status : Option (Int → Nat → Errno → Int × Errno)
  ftruncate : Option Errno

structure Copying where
  source : List UInt8
  dst : List UInt8
  offset : Nat
  totalCopied : Nat
  errno : Errno
  err : Errno
  reads : Nat
  writes : Nat
  calls : Nat

variable (system : DataSystem)

/-- Writing what is left of a buffer. It ends with what the function is to return, or with nothing
where the next buffer is to be read. -/
def writeLoop (oBlocksize : Nat) : Nat → List UInt8 → Nat → Copying → Option (Option Int × Copying)
  | 0, _, _, _ => none
  | fuel + 1, left, loop, s =>
      if left = [] then some (none, s)
      else
        let made := { s with writes := s.writes + 1 }
        match system.write s.writes with
        | .failed error =>
            let s := { made with errno := error }
            match system.status with
            | none => some (some (-1), s)
            | some status =>
                let (rv, errno) := status copyfileErr s.calls s.errno
                let s := { s with calls := s.calls + 1, errno }
                if rv = copyfileSkip then some (some 0, s)
                else if rv = copyfileContinue then
                  writeLoop oBlocksize fuel left loop { s with errno := 0 }
                else some (some (-1), s)
        | .count n =>
            let nwritten := min n (min left.length oBlocksize)
            if nwritten = 0 ∧ 5 < loop + 1 then some (some (-1), { made with err := eagain })
            else
              let s := { made with
                dst := overwrite 0 s.dst s.offset (left.take nwritten)
                offset := s.offset + nwritten
                totalCopied := s.totalCopied + nwritten }
              let loop := if nwritten = 0 then loop + 1 else 0
              match system.status with
              | none => writeLoop oBlocksize fuel (left.drop nwritten) loop s
              | some status =>
                  let (rv, errno) := status copyfileProgress s.calls s.errno
                  let s := { s with calls := s.calls + 1, errno }
                  if rv = copyfileQuit then some (some (-1), { s with err := ecanceled })
                  else writeLoop oBlocksize fuel (left.drop nwritten) loop s

def copyfileDataExit (ret : Int) (s : Copying) : Int × Copying :=
  (ret, if ret = -1 then { s with err := s.errno } else s)

/-- A `read` of a regular file gives something where there is something to give. -/
def readLoop (sb : SourceStat) (blen oBlocksize : Nat) : Nat → Copying → Option (Int × Copying)
  | 0, _ => none
  | fuel + 1, s =>
      let made := { s with reads := s.reads + 1 }
      match system.read s.reads with
      | .failed error => some (copyfileDataExit (-1) { made with errno := error })
      | .count n =>
          let nread := min (max n 1) (min blen s.source.length)
          if nread = 0 then
            match system.ftruncate with
            | some error => some (copyfileDataExit (-1) { made with errno := error })
            | none => some (copyfileDataExit 0 { made with dst := resize 0 s.dst sb.size })
          else
            match writeLoop system oBlocksize fuel (s.source.take nread) 0
                { made with source := s.source.drop nread } with
            | none => none
            | some (some ret, s) => some (copyfileDataExit ret s)
            | some (none, s) => readLoop sb blen oBlocksize fuel s

def iBlocksize (sb : SourceStat) : Nat := min (system.srcIosize.getD sb.blksize) onegig

def oBlocksize (sb : SourceStat) : Nat :=
  match system.dstIosize with
  | none | some 0 => iBlocksize system sb
  | some iosize => min iosize onegig

def copyfileData (sb : SourceStat) (fuel : Nat) (s : Copying) : Option (Int × Copying) :=
  if sb.mode &&& sIfmt ≠ sIfreg then some (0, s)
  else if system.malloc (iBlocksize system sb) = false then some (-1, { s with errno := enomem })
  else
    readLoop system sb (iBlocksize system sb) (oBlocksize system sb) fuel
      { s with totalCopied := 0 }

end LegacySupport.Copyfile
