import LegacySupport.CheckAccess

/-!
`fcntl(F_GETPATH)` of `fcntl.c` in threads that run at once. Where the kernel cannot cope with the
address of the caller's buffer, it is given a static buffer in low memory, which the threads share
under a lock.
-/

namespace LegacySupport.GetPath

open CInt Access

abbrev Errno := Nat
abbrev Memory := Nat → UInt8

def efault : Errno := 14
def maxpathlen : Nat := 1024
def lowMemory : Nat := 2 ^ 32

/-- What the kernel says of the descriptor when it is asked the first time and the second time (the
file may be renamed in between): an error, or the bytes of a path with the NUL at its end. -/
structure Call where
  adr : Nat
  first : Except Errno (List UInt8)
  second : Except Errno (List UInt8)
  top : adr + maxpathlen < 2 ^ 64
  short : ∀ path, first = .ok path ∨ second = .ok path → path.length ≤ maxpathlen

/-- The map of a process, the addresses that the kernel copes with, and the static buffer. -/
structure System where
  page : Nat
  map : VmMap page
  handles : Nat → Bool
  pathbuf : Nat
  pages : maxpathlen ≤ page
  low : ∀ adr, adr < lowMemory → handles adr = true
  pathbufLow : pathbuf < lowMemory
  pathbufWritable : Writable map.regions pathbuf maxpathlen = true

inductive Pc
  | start
  | answering (path : List UInt8) (k : Nat)
  | checking
  | locking
  | filling (path : List UInt8) (k : Nat)
  | copying (k : Nat)
  | failing
  | unlocking
  | fault
  deriving DecidableEq

structure Return where
  call : Call
  ret : Int
  errno : Errno
  before : List UInt8
  after : List UInt8

structure Thread where
  todo : List Call
  pc : Pc
  errno : Errno
  before : List UInt8
  history : List Return

structure State where
  threads : Nat → Thread
  memory : Memory
  pathLock : Option Nat

def State.initial (calls : Nat → List Call) (memory : Memory) : State where
  threads := fun i => ⟨calls i, .start, 0, [], []⟩
  memory
  pathLock := none

def read (memory : Memory) (adr size : Nat) : List UInt8 :=
  (List.range size).map fun i => memory (adr + i)

variable (system : System)

def osFcntl (said : Except Errno (List UInt8)) (adr : Nat) : Except Errno (List UInt8) :=
  match said with
  | .error error => .error error
  | .ok path =>
      if system.handles adr && Writable system.map.regions adr path.length then .ok path
      else .error efault

def Thread.goto (thread : Thread) (pc : Pc) : Thread := { thread with pc }

def Thread.fail (thread : Thread) (errno : Errno) (pc : Pc) : Thread := { thread with pc, errno }

def Thread.return (thread : Thread) (call : Call) (rest : List Call) (memory : Memory) (ret : Int) :
    Thread where
  todo := rest
  pc := .start
  errno := thread.errno
  before := []
  history := thread.history ++
    [⟨call, ret, thread.errno, thread.before, read memory call.adr maxpathlen⟩]

def State.put (s : State) (i : Nat) (thread : Thread) : State :=
  { s with threads := Function.update s.threads i thread }

def State.poke (s : State) (adr : Nat) (byte : UInt8) : State :=
  { s with memory := Function.update s.memory adr byte }

/-- One step of a thread in a call. The kernel and `memcpy` write one byte at a time. -/
def stepCall (s : State) (i : Nat) (thread : Thread) (call : Call) (rest : List Call) : State :=
  match thread.pc with
  | .start =>
      let thread := { thread with before := read s.memory call.adr maxpathlen }
      match osFcntl system call.first call.adr with
      | .ok path => s.put i (thread.goto (.answering path 0))
      | .error error =>
          let thread := { thread with errno := error }
          if error ≠ efault then s.put i (thread.return call rest s.memory (-1))
          else if call.adr < lowMemory then s.put i (thread.return call rest s.memory (-1))
          else s.put i (thread.goto .checking)
  | .answering path k =>
      if k < path.length then
        (s.poke (call.adr + k) (path.getD k 0)).put i (thread.goto (.answering path (k + 1)))
      else s.put i (thread.return call rest s.memory 0)
  | .checking =>
      if mplsCheckAccess .lp64 system.page system.map.regions call.adr maxpathlen vmProtWrite none
          ≠ 0 then
        let thread := { thread with errno := efault }
        s.put i (thread.return call rest s.memory (-1))
      else s.put i (thread.goto .locking)
  | .locking =>
      if s.pathLock = none then
        let s := { s with pathLock := some i }
        match osFcntl system call.second system.pathbuf with
        | .ok path => s.put i (thread.goto (.filling path 0))
        | .error error => s.put i (thread.fail error .failing)
      else s
  | .filling path k =>
      if k < path.length then
        (s.poke (system.pathbuf + k) (path.getD k 0)).put i (thread.goto (.filling path (k + 1)))
      else s.put i (thread.goto (.copying 0))
  | .copying k =>
      if k < maxpathlen then
        if Writable system.map.regions (call.adr + k) 1 then
          (s.poke (call.adr + k) (s.memory (system.pathbuf + k))).put i
            (thread.goto (.copying (k + 1)))
        else s.put i (thread.goto .fault)
      else s.put i (thread.goto .unlocking)
  | .failing => { s with pathLock := none }.put i (thread.return call rest s.memory (-1))
  | .unlocking =>
      let thread := { thread with errno := 0 }
      { s with pathLock := none }.put i (thread.return call rest s.memory 0)
  | .fault => s

def step (s : State) (i : Nat) : State :=
  match (s.threads i).todo with
  | [] => s
  | call :: rest => stepCall system s i (s.threads i) call rest

end LegacySupport.GetPath
