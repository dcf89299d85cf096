import Mathlib

/-!
`copytree` of `copyfile.c`: a hierarchy is walked with `fts`, each of its entries is copied by a
call of `copyfile`, and a callback is told before and after each of them and may stop the copy.
-/

namespace LegacySupport.Copytree

abbrev Path := List UInt8

def slash : UInt8 := 47

structure Name where
  bytes : Path
  nonempty : bytes ≠ []
  plain : slash ∉ bytes

/-- What is under a directory, one entry after the other. An entry that `fts` reports an error for
may also be a directory that cannot be read. -/
inductive Forest
  | nil
  | file (name : Name) (rest : Forest)
  | error (name : Name) (rest : Forest)
  | unreadable (name : Name) (rest : Forest)
  | directory (name : Name) (contents rest : Forest)

inductive FtsInfo
  | d
  | f
  | dp
  | error
  deriving DecidableEq

structure FtsEnt where
  info : FtsInfo
  path : Path
  deriving DecidableEq

/-- What `fts_read` is going to give. After a directory that is one thing or another, by whether
`FTS_SKIP` has been set for it. -/
inductive Walk
  | done
  | entry (ent : FtsEnt) (next : Walk)
  | directory (path : Path) (enter skip : Walk)

def ftsAppend (directory : Path) (name : Name) : Path :=
  if directory.getLast? = some slash then directory ++ name.bytes
  else directory ++ slash :: name.bytes

def Forest.walk : Forest → Path → Walk → Walk
  | .nil, _, next => next
  | .file name rest, parent, next =>
      .entry ⟨.f, ftsAppend parent name⟩ (rest.walk parent next)
  | .error name rest, parent, next =>
      .entry ⟨.error, ftsAppend parent name⟩ (rest.walk parent next)
  | .unreadable name rest, parent, next =>
      let path := ftsAppend parent name
      let more := rest.walk parent next
      .directory path (.entry ⟨.error, path⟩ more) (.entry ⟨.dp, path⟩ more)
  | .directory name contents rest, parent, next =>
      let path := ftsAppend parent name
      let after := .entry ⟨.dp, path⟩ (rest.walk parent next)
      .directory path (contents.walk path after) after

inductive Root
  | file
  | error
  | unreadable
  | directory (contents : Forest)

def Root.walk (src : Path) : Root → Walk
  | .file => .entry ⟨.f, src⟩ .done
  | .error => .entry ⟨.error, src⟩ .done
  | .unreadable => .directory src (.entry ⟨.error, src⟩ .done) (.entry ⟨.dp, src⟩ .done)
  | .directory contents =>
      .directory src (contents.walk src (.entry ⟨.dp, src⟩ .done)) (.entry ⟨.dp, src⟩ .done)

inductive What
  | recurseError
  | recurseFile
  | recurseDir
  | recurseDirCleanup
  deriving DecidableEq

inductive Stage
  | start
  | finish
  | err
  deriving DecidableEq

def copyfileSkip : Int := 1
def copyfileQuit : Int := 2

/-- What is done for an entry: its state and the name of its destination are allocated, then there
is a callback and what it has answered, a copy, the opening of the destination to take its temporary
access control entry out, or nothing but an error of `fts`. -/
inductive Event
  | allocate (path : Path) (given : Bool)
  | status (what : What) (stage : Stage) (path dstfile : Path) (answer : Int)
  | copy (path dstfile : Path) (delayAce : Bool) (copied : Bool)
  | cleanup (dstfile : Path) (opened : Bool)
  | failed (path : Path)
  deriving DecidableEq

/-- The answers of the callback and of the system may depend on all that has happened. -/
structure System where
  allocates : List Event → Path → Bool
  status : Option (List Event → What → Stage → Path → Path → Int)
  copyfile : List Event → Path → Path → Bool
  opens : List Event → Path → Bool

variable (system : System)

structure Handled where
  retval : Int
  skips : Bool
  log : List Event

def goOn (log : List Event) : Handled := ⟨0, false, log⟩
def stop (log : List Event) : Handled := ⟨-1, false, log⟩

def ask (what : What) (stage : Stage) (path dstfile : Path) (log : List Event)
    (absent : List Event → Handled) (answered : Int → List Event → Handled) : Handled :=
  match system.status with
  | none => absent log
  | some status =>
      let rv := status log what stage path dstfile
      answered rv (log ++ [.status what stage path dstfile rv])

def handleError (path dstfile : Path) (log : List Event) : Handled :=
  ask system .recurseError .err path dstfile (log ++ [.failed path]) stop fun rv log =>
    if rv = copyfileQuit then stop log else goOn log

def handleCopy (what : What) (delayAce : Bool) (path dstfile : Path) (log : List Event) : Handled :=
  let copy (log : List Event) : Handled :=
    let copied := system.copyfile log path dstfile
    let log := log ++ [.copy path dstfile delayAce copied]
    if copied then
      ask system what .finish path dstfile log goOn fun rv log =>
        if rv = copyfileQuit then stop log else goOn log
    else
      ask system what .err path dstfile log stop fun rv log =>
        if rv = copyfileQuit then stop log else goOn log
  ask system what .start path dstfile log copy fun rv log =>
    if rv = copyfileSkip then ⟨0, decide (what = .recurseDir), log⟩
    else if rv = copyfileQuit then stop log
    else copy log

/-- To quit at the last callback of a directory sets another variable than `retval`. -/
def handleCleanup (path dstfile : Path) (log : List Event) : Handled :=
  let clean (log : List Event) : Handled :=
    let opened := system.opens log dstfile
    let log := log ++ [.cleanup dstfile opened]
    if opened then
      ask system .recurseDirCleanup .finish path dstfile log goOn fun _ log => goOn log
    else
      ask system .recurseDirCleanup .err path dstfile log stop fun rv log =>
        if rv = copyfileQuit then stop log else goOn log
  ask system .recurseDirCleanup .start path dstfile log clean fun rv log =>
    if rv = copyfileQuit then stop log
    else if rv = copyfileSkip then goOn log
    else clean log

variable (dstfile : Path → Path)

def handle (ent : FtsEnt) (log : List Event) : Handled :=
  let given := system.allocates log ent.path
  let log := log ++ [.allocate ent.path given]
  if given = false then stop log
  else
    match ent.info with
    | .d => handleCopy system .recurseDir true ent.path (dstfile ent.path) log
    | .f => handleCopy system .recurseFile false ent.path (dstfile ent.path) log
    | .dp => handleCleanup system ent.path (dstfile ent.path) log
    | .error => handleError system ent.path (dstfile ent.path) log

def readLoop : Walk → List Event → List FtsEnt → Int × List Event × List FtsEnt
  | .done, log, ents => (0, log, ents)
  | .entry ent next, log, ents =>
      let handled := handle system dstfile ent log
      if handled.retval = -1 then (-1, handled.log, ents ++ [ent])
      else readLoop next handled.log (ents ++ [ent])
  | .directory path enter skip, log, ents =>
      let handled := handle system dstfile ⟨.d, path⟩ log
      if handled.retval = -1 then (-1, handled.log, ents ++ [⟨.d, path⟩])
      else if handled.skips then readLoop skip handled.log (ents ++ [⟨.d, path⟩])
      else readLoop enter handled.log (ents ++ [⟨.d, path⟩])

def baseOffset (src : Path) : Nat := src.length - (src.reverse.takeWhile (· ≠ slash)).length

def dstFile (src dst : Path) (dstisdir : Bool) (ftsPath : Path) : Path :=
  if dstisdir then dst ++ [slash] ++ ftsPath.drop (baseOffset src)
  else dst ++ ftsPath.drop src.length

/-- What is asked before the walk: that no other flag is among those that exclude this one, that
both names are given, and what `stat` tells of them: of the destination that it cannot be told,
that there is none, or whether it is a directory. -/
structure Request where
  excluded : Bool
  src : Option Path
  dst : Option Path
  srcThere : Bool
  dstStat : Except Unit (Option Bool)
  root : Root

def copytree (request : Request) : Int × List Event × List FtsEnt :=
  if request.excluded then (-1, [], [])
  else
    match request.src, request.dst with
    | some src, some dst =>
        if request.srcThere = false then (-1, [], [])
        else
          match request.dstStat with
          | .error _ => (-1, [], [])
          | .ok found =>
              readLoop system (dstFile src dst (found.getD false)) (request.root.walk src) [] []
    | _, _ => (-1, [], [])

end LegacySupport.Copytree
