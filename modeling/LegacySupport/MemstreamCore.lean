import LegacySupport.CInt

/-!
The memory streams of `memstream.c`: the callbacks of `open_memstream` on their state.
-/

namespace LegacySupport.OpenMemstream

open CInt

def initialCapacity : Nat := 4096

def seekSet : Int32 := 0
def seekCur : Int32 := 1
def seekEnd : Int32 := 2

structure Contents where
  address : Nat
  bytes : List UInt8
  deriving DecidableEq, Repr

structure Memstream where
  position : Int
  size : Int
  capacity : Int
  contents : Option Contents
  ptr : Option Nat
  sizeloc : Nat
  deriving DecidableEq, Repr

/-- How a callback fails to return: a store or a load outside the contents, a failed assertion,
or a loop that does not end. -/
inductive Fault
  | outside
  | aborts
  | diverges
  deriving DecidableEq, Repr

structure Grant where
  address : Nat
  stale : Nat → UInt8

def Contents.store (contents : Contents) (start : Int) (data : List UInt8) :
    Except Fault Contents :=
  if data = [] then .ok contents
  else if 0 ≤ start ∧ start + data.length ≤ contents.bytes.length then
    .ok { contents with
      bytes := contents.bytes.take start.toNat ++ data ++
        contents.bytes.drop (start.toNat + data.length) }
  else .error .outside

def Contents.load (contents : Option Contents) (index : Int) : Except Fault UInt8 :=
  match contents with
  | none => .error .outside
  | some contents =>
      if 0 ≤ index then
        match contents.bytes[index.toNat]? with
        | some byte => .ok byte
        | none => .error .outside
      else .error .outside

def Contents.realloc (contents : Contents) (grant : Grant) (size : Nat) : Contents where
  address := grant.address
  bytes := (contents.bytes ++
    (List.range (size - contents.bytes.length)).map fun i =>
      grant.stale (contents.bytes.length + i)).take size

/-- The doubling loop. An `int` that has been doubled 32 times is zero and stays zero. -/
def growCapacity : Nat → Int → Int → Option Int
  | 0, _, _ => none
  | fuel + 1, newcap, minsize =>
      if newcap ≤ minsize then growCapacity fuel (int (newcap * 2)) minsize else some newcap

def growRounds : Nat := 64

/-- The value returned, and the stream. A failed `realloc` leaves no contents. -/
def memstreamGrow (ms : Memstream) (minsize : Int) (grant : Option Grant) :
    Except Fault (Int × Memstream) :=
  match ms.contents with
  | none => .ok (-1, ms)
  | some contents =>
      match growCapacity growRounds (int (ms.capacity * 2)) minsize with
      | none => .error .diverges
      | some newcap =>
          match grant with
          | none => .ok (-1, { ms with contents := none })
          | some grant =>
              let added := int (newcap - ms.capacity)
              -- a negative count is converted to a huge one
              if added < 0 then .error .outside
              else
                ((contents.realloc grant newcap.toNat).store ms.capacity
                  (List.replicate added.toNat 0)).map fun contents =>
                    (0, { ms with
                      contents := some contents
                      capacity := newcap
                      ptr := some contents.address })

def Memstream.extend (abi : Abi) (ms : Memstream) : Memstream :=
  if ms.size < ms.position then
    { ms with size := ms.position, sizeloc := abi.sizeT ms.position }
  else ms

def Memstream.check (ms : Memstream) : Except Fault Unit :=
  if ms.size < ms.capacity then
    (Contents.load ms.contents ms.size).bind fun last =>
      if last = 0 then .ok () else .error .aborts
  else .error .aborts

def memstreamRead (ms : Memstream) (count : Int32) :
    Except Fault (Int × List UInt8 × Memstream) :=
  match ms.contents with
  | none => .ok (-1, [], ms)
  | some contents =>
      let n := min (int (ms.size - ms.position)) count.toInt
      if n < 1 then .ok (0, [], ms)
      else if contents.bytes.length < n then .error .outside
      else .ok (n, contents.bytes.take n.toNat, { ms with position := int (ms.position + n) })

def memstreamWrite (abi : Abi) (ms : Memstream) (buf : List UInt8) (grant : Option Grant) :
    Except Fault (Int × Memstream) :=
  if ms.contents.isNone then .ok (-1, ms)
  else
    let count : Int := buf.length
    let target := int (ms.position + count)
    let grown := if ms.capacity ≤ target then memstreamGrow ms target grant else .ok (0, ms)
    grown.bind fun (grown, ms) =>
      if grown < 0 then .ok (-1, ms)
      else
        match ms.contents with
        | none => .error .outside
        | some contents =>
            (contents.store ms.position buf).bind fun contents =>
              let position := int (ms.position + count)
              let ms := Memstream.extend abi { ms with contents := some contents, position }
              ms.check.map fun _ => (count, ms)

def Memstream.target (ms : Memstream) (offset : Int64) (whence : Int32) : Option Int :=
  if whence = seekSet then some offset.toInt
  else if whence = seekCur then some (int64 (ms.position + offset.toInt))
  else if whence = seekEnd then some (int64 (ms.size + offset.toInt))
  else none

/-- The result of growing is not looked at. -/
def memstreamSeek (abi : Abi) (ms : Memstream) (offset : Int64) (whence : Int32)
    (grant : Option Grant) : Except Fault (Int × Memstream) :=
  if ms.contents.isNone then .ok (-1, ms)
  else
    match ms.target offset whence with
    | none => .ok (-1, ms)
    | some pos =>
        let grown := if pos ≥ ms.capacity then memstreamGrow ms (int pos) grant else .ok (0, ms)
        grown.bind fun (_, ms) =>
          let ms := Memstream.extend abi { ms with position := int pos }
          ms.check.map fun _ => (pos, ms)

structure Closed where
  value : Int
  contents : Option Contents
  ptr : Option Nat
  sizeloc : Nat
  deriving DecidableEq, Repr

def memstreamClose (abi : Abi) (ms : Memstream) : Except Fault Closed :=
  match ms.contents with
  | none => .ok ⟨-1, none, ms.ptr, ms.sizeloc⟩
  | some contents =>
      let size := min ms.size ms.position
      if size < ms.capacity then
        (contents.store size [0]).map fun contents =>
          ⟨0, some contents, some contents.address, abi.sizeT size⟩
      else .error .aborts

def openMemstream (address : Nat) : Memstream where
  position := 0
  size := 0
  capacity := initialCapacity
  contents := some ⟨address, List.replicate initialCapacity 0⟩
  ptr := some address
  sizeloc := 0

end LegacySupport.OpenMemstream
