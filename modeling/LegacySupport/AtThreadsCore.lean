import LegacySupport.Runs

/-!
`_ATCALL` of `atcalls.h` in threads that run at once, one system call at a time. The threads share
the descriptors and the directory of the process; what `__mpls_best_fchdir` changes is the
directory of the thread, or on 10.4 that of the process.
-/

namespace LegacySupport.AtThreads

inductive Level
  | thread
  | process
  deriving DecidableEq

/-- A call with a path that starts from a descriptor, or from none: `AT_FDCWD`, or an absolute
path. -/
structure Call where
  fd : Option Nat
  deriving DecidableEq

inductive Pc
  | start
  | dropping (oldCwd : Option Nat)
  | forgetting (oldCwd : Nat)
  | entering (oldCwd : Option Nat)
  | calling (oldCwd : Option Nat)
  | leaving (oldCwd : Option Nat)
  | closing (oldCwd : Nat)
  deriving DecidableEq

variable {Dir : Type}

/-- The thread's own directory if it has one, the calls to make, and the calls made with the
directory that each was made in, or none if that could not be entered. What it has to go back to is
unsaved once a directory could not be opened or gone back to. -/
structure Thread (Dir : Type) where
  own : Option Dir
  unsaved : Bool
  pc : Pc
  todo : List Call
  log : List (Call × Option Dir)

/-- Descriptors of anything but directories are not told apart from descriptors not in use. -/
structure State (Dir : Type) where
  process : Dir
  fds : Nat → Option Dir
  threads : Nat → Thread Dir

inductive Answer
  | ok (fd : Nat)
  | error
  deriving DecidableEq

def State.initial (process : Dir) (fds : Nat → Option Dir) (own : Nat → Option Dir)
    (calls : Nat → List Call) : State Dir where
  process
  fds
  threads := fun i => ⟨own i, false, .start, calls i, []⟩

def State.here (s : State Dir) (i : Nat) : Dir := (s.threads i).own.getD s.process

def State.put (s : State Dir) (i : Nat) (thread : Thread Dir) : State Dir :=
  { s with threads := Function.update s.threads i thread }

def State.enter (level : Level) (s : State Dir) (i : Nat) (thread : Thread Dir) (dir : Dir) :
    State Dir :=
  match level with
  | .thread => s.put i { thread with own := some dir }
  | .process => { s with process := dir }.put i thread

def Thread.return (thread : Thread Dir) : Thread Dir :=
  { thread with pc := .start, todo := thread.todo.tail }

def Thread.left (thread : Thread Dir) (oldCwd : Option Nat) : Thread Dir :=
  match oldCwd with
  | none => thread.return
  | some n => { thread with pc := .closing n }

def stepAtcall (level : Level) (s : State Dir) (i : Nat) (thread : Thread Dir) (call : Call)
    (fd : Nat) (answer : Answer) : State Dir :=
  match thread.pc with
  | .start =>
      -- `open(".", O_RDONLY)`
      match answer with
      | .ok n =>
          if (s.fds n).isNone then
            { s with fds := Function.update s.fds n (some (s.here i)) }.put i
              { thread with pc := .dropping (some n) }
          else s
      | .error => s.put i { thread with pc := .dropping none, unsaved := true }
  | .dropping oldCwd =>
      -- `__mpls_best_fchdir(-1)`, which fails where the thread has no directory of its own.
      match level, thread.own, oldCwd with
      | .thread, none, some n => s.put i { thread with pc := .forgetting n }
      | .thread, none, none => s.put i { thread with pc := .entering none }
      | .thread, some _, oldCwd => s.put i { thread with own := none, pc := .entering oldCwd }
      | .process, _, oldCwd => s.put i { thread with pc := .entering oldCwd }
  | .forgetting n =>
      { s with fds := Function.update s.fds n none }.put i { thread with pc := .entering none }
  | .entering oldCwd =>
      match answer, s.fds fd with
      | .ok _, some dir => s.enter level i { thread with pc := .calling oldCwd } dir
      | _, _ =>
          s.put i { thread with pc := .leaving oldCwd, log := thread.log ++ [(call, none)] }
  | .calling oldCwd =>
      s.put i
        { thread with pc := .leaving oldCwd, log := thread.log ++ [(call, some (s.here i))] }
  | .leaving oldCwd =>
      match oldCwd with
      | none =>
          match level with
          | .thread => s.put i (({ thread with own := none } : Thread Dir).left none)
          | .process => s.put i (thread.left none)
      | some n =>
          match answer, s.fds n with
          | .ok _, some dir => s.enter level i (thread.left (some n)) dir
          | _, _ => s.put i (({ thread with unsaved := true } : Thread Dir).left (some n))
  | .closing n => { s with fds := Function.update s.fds n none }.put i thread.return

def step (level : Level) (s : State Dir) (event : Nat × Answer) : State Dir :=
  let (i, answer) := event
  match (s.threads i).todo with
  | [] => s
  | call :: _ =>
      match call.fd with
      | none =>
          s.put i ({ s.threads i with
            log := (s.threads i).log ++ [(call, some (s.here i))] } : Thread Dir).return
      | some fd => stepAtcall level s i (s.threads i) call fd answer

end LegacySupport.AtThreads
