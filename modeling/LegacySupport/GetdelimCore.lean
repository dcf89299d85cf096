import LegacySupport.CInt

/-!
The line reader of `getdelim.c`: one loop that reads a character at a time into the caller's
buffer and doubles the buffer when it runs out.
-/

namespace LegacySupport.Getdelim

open CInt

def bufsizDefault : Nat := 1024

abbrev Memory (abi : Abi) := { bytes : List UInt8 // bytes.length < abi.sizeMod }

inductive LineBuf (abi : Abi)
  | null (bufsiz : Nat)
  | space (memory : Memory abi)

/-- What the allocator does in one call: which requests it grants, and what newly obtained
memory holds at each position of the buffer. No position is newly obtained twice in a call. -/
structure Allocator where
  mallocGranted : Bool
  reallocGranted : Nat → Bool
  fresh : Nat → UInt8

def Memory.store {abi : Abi} (memory : Memory abi) (position : Nat) (c : UInt8) : Memory abi :=
  ⟨memory.val.set position c, by simpa using memory.property⟩

def Allocator.malloc (allocator : Allocator) (abi : Abi) : Memory abi :=
  ⟨(List.range bufsizDefault).map allocator.fresh, by cases abi <;> simp [bufsizDefault]⟩

def Allocator.realloc (allocator : Allocator) {abi : Abi} (memory : Memory abi) (size : Int) :
    Memory abi :=
  ⟨(List.range (abi.sizeT size)).map fun i => memory.val.getD i (allocator.fresh i), by
    simpa using sizeT_lt abi size⟩

structure Result (abi : Abi) where
  rest : List UInt8
  lineBuf : LineBuf abi
  value : Int

/-- A call stores outside the buffer, or it returns. -/
inductive Outcome (abi : Abi)
  | fault
  | returned (result : Result abi)

def getdelimLoop {abi : Abi} (allocator : Allocator) (delimiter : UInt8) :
    List UInt8 → Memory abi → Nat → Outcome abi
  | [], memory, ptr => .returned ⟨[], .space memory, if ptr = 0 then -1 else abi.long ptr⟩
  | c :: rest, memory, ptr =>
      if memory.val.length ≤ ptr then .fault
      else
        let memory := memory.store ptr c
        let ptr := ptr + 1
        if c = delimiter then
          if memory.val.length ≤ ptr then .fault
          else .returned ⟨rest, .space (memory.store ptr 0), abi.long ptr⟩
        else if ptr + 2 ≥ memory.val.length then
          let nbufsiz := memory.val.length * 2
          if allocator.reallocGranted (abi.sizeT nbufsiz) then
            getdelimLoop allocator delimiter rest (allocator.realloc memory nbufsiz) ptr
          else .returned ⟨rest, .space memory, -1⟩
        else getdelimLoop allocator delimiter rest memory ptr

def LineBuf.obtain {abi : Abi} (lineBuf : LineBuf abi) (allocator : Allocator) :
    Option (Memory abi) :=
  match lineBuf with
  | .space ⟨c :: bytes, fits⟩ => some ⟨c :: bytes, fits⟩
  | _ => if allocator.mallocGranted then some (allocator.malloc abi) else none

def getdelim {abi : Abi} (allocator : Allocator) (lineBuf : LineBuf abi) (delimiter : UInt8)
    (stream : List UInt8) : Outcome abi :=
  match lineBuf.obtain allocator with
  | none => .returned ⟨stream, .null bufsizDefault, -1⟩
  | some memory => getdelimLoop allocator delimiter stream memory 0

def getline {abi : Abi} (allocator : Allocator) (lineBuf : LineBuf abi) (stream : List UInt8) :
    Outcome abi :=
  getdelim allocator lineBuf 10 stream

end LegacySupport.Getdelim
