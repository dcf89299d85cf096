import LegacySupport.Arc4randomCore

/-!
The fork detection of `arc4random.c` in a tree of processes: the flag of a process that the
fork handler raises and any of its threads clears, and the pid that each thread remembers.
-/

namespace LegacySupport.Arc4random

/-- A thread's `rand_state` with its `rs_pid`, and how much of its history was already there at
the last fork that copied it. No function reads that. -/
structure ThreadState where
  st : RandState
  rsPid : Nat
  inherited : Nat

/-- The statics of a process, and its threads with what `Rkey` holds for each. `once` tells
whether `_screate` has run, which creates the key and registers the fork handler. -/
structure Process where
  rforked : UInt32
  once : Bool
  threads : Nat → Option (Option ThreadState)

def Process.setThread (process : Process) (tid : Nat) (thread : Option ThreadState) : Process :=
  { process with
    threads := fun other => if other = tid then some thread else process.threads other }

def Process.screate (process : Process) : Process := { process with once := true }

def Process.atfork (process : Process) : Process :=
  { process with rforked := process.rforked + 1 }

def newState (pid : Nat) (rnd : Entropy) : ThreadState where
  st := rsStir .zero rnd
  rsPid := pid
  inherited := 0

def sget (pid : Nat) (process : Process) (thread : Option ThreadState) (created rnd : Entropy) :
    Process × ThreadState :=
  let process := if process.once then process else process.screate
  let z := match thread with
    | none => newState pid created
    | some z => z
  if process.rforked > 0 ∨ pid ≠ z.rsPid then
    ({ process with rforked := 0 }, { z with rsPid := pid, st := rsStir z.st rnd })
  else (process, z)

/-! ## The tree of processes -/

abbrev World := Nat → Option Process

def World.set (world : World) (pid : Nat) (process : Option Process) : World :=
  fun other => if other = pid then process else world other

def World.root (pid tid : Nat) : World :=
  World.set (fun _ => none) pid (some {
    rforked := 0
    once := false
    threads := fun other => if other = tid then some none else none })

def ThreadState.copied (z : ThreadState) : ThreadState := { z with inherited := z.st.log.length }

def Process.child (process : Process) (tid : Nat) (thread : Option ThreadState) : Process :=
  let process := { process with
    threads := fun other => if other = tid then some (thread.map .copied) else none }
  if process.once then process.atfork else process

inductive Action (abi : CInt.Abi)
  | fork (pid tid child : Nat)
  | exit (pid : Nat)
  | createThread (pid tid : Nat)
  | call (pid tid : Nat) (request : Request abi) (created rnd : Entropy)

def Process.call (host : Host) (pid tid : Nat) (process : Process) (thread : Option ThreadState)
    (request : Request host.abi) (created rnd : Entropy) : Process :=
  let (process, z) := sget pid process thread created rnd
  process.setThread tid (some { z with st := serve host z.st request })

/-- An action whose process or thread does not exist, or whose new pid or thread id is taken,
is not taken. -/
def step (host : Host) (world : World) : Action host.abi → World
  | .fork pid tid child =>
      match world pid, world child with
      | some process, none =>
          match process.threads tid with
          | some thread => world.set child (some (process.child tid thread))
          | none => world
      | _, _ => world
  | .exit pid => world.set pid none
  | .createThread pid tid =>
      match world pid with
      | some process =>
          match process.threads tid with
          | none => world.set pid (some (process.setThread tid none))
          | some _ => world
      | none => world
  | .call pid tid request created rnd =>
      match world pid with
      | some process =>
          match process.threads tid with
          | some thread =>
              world.set pid (some (process.call host pid tid thread request created rnd))
          | none => world
      | none => world

end LegacySupport.Arc4random
