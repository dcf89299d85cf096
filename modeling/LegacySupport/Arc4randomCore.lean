import LegacySupport.CInt

/-!
The per-thread generator of `arc4random.c`: the ChaCha keystream, rekeying, stirring
and the two paths that hand bytes out of the buffer.
-/

namespace LegacySupport.Arc4random

open CInt

def keysz : Nat := 32
def ivsz : Nat := 8
def blocksz : Nat := 64
abbrev rsbufsz : Nat := 16 * blocksz

/-! ## ChaCha -/

structure ChachaCtx where
  input : Vector UInt32 16
  deriving DecidableEq

def rotl32 (v n : UInt32) : UInt32 := (v <<< n) ||| (v >>> (32 - n))

def u8to32Little (bytes : List UInt8) (offset : Nat) : UInt32 :=
  (bytes.getD offset 0).toUInt32 ||| ((bytes.getD (offset + 1) 0).toUInt32 <<< 8) |||
    ((bytes.getD (offset + 2) 0).toUInt32 <<< 16) ||| ((bytes.getD (offset + 3) 0).toUInt32 <<< 24)

def u32to8Little (v : UInt32) : List UInt8 :=
  [v.toUInt8, (v >>> 8).toUInt8, (v >>> 16).toUInt8, (v >>> 24).toUInt8]

def quarterround (x : Vector UInt32 16) (a b c d : Fin 16) : Vector UInt32 16 :=
  let x := x.set a (x[a] + x[b])
  let x := x.set d (rotl32 (x[d] ^^^ x[a]) 16)
  let x := x.set c (x[c] + x[d])
  let x := x.set b (rotl32 (x[b] ^^^ x[c]) 12)
  let x := x.set a (x[a] + x[b])
  let x := x.set d (rotl32 (x[d] ^^^ x[a]) 8)
  let x := x.set c (x[c] + x[d])
  x.set b (rotl32 (x[b] ^^^ x[c]) 7)

def doubleRound (x : Vector UInt32 16) : Vector UInt32 16 :=
  let x := quarterround x 0 4 8 12
  let x := quarterround x 1 5 9 13
  let x := quarterround x 2 6 10 14
  let x := quarterround x 3 7 11 15
  let x := quarterround x 0 5 10 15
  let x := quarterround x 1 6 11 12
  let x := quarterround x 2 7 8 13
  quarterround x 3 4 9 14

def chachaBlock (input : Vector UInt32 16) : List UInt8 :=
  let x := Nat.iterate doubleRound 10 input
  (x.zipWith (· + ·) input).toList.flatMap u32to8Little

def sigma : List UInt8 :=
  [0x65, 0x78, 0x70, 0x61, 0x6e, 0x64, 0x20, 0x33, 0x32, 0x2d, 0x62, 0x79, 0x74, 0x65, 0x20, 0x6b]

def tau : List UInt8 :=
  [0x65, 0x78, 0x70, 0x61, 0x6e, 0x64, 0x20, 0x31, 0x36, 0x2d, 0x62, 0x79, 0x74, 0x65, 0x20, 0x6b]

def chachaKeysetup (x : ChachaCtx) (k : List UInt8) (kbits : Nat) : ChachaCtx :=
  let constants := if kbits = 256 then sigma else tau
  let high := if kbits = 256 then k.drop 16 else k
  { input := Vector.ofFn fun word =>
      if word.val < 4 then u8to32Little constants (4 * word.val)
      else if word.val < 8 then u8to32Little k (4 * (word.val - 4))
      else if word.val < 12 then u8to32Little high (4 * (word.val - 8))
      else x.input[word] }

def chachaIvsetup (x : ChachaCtx) (iv : List UInt8) : ChachaCtx :=
  { input := (((x.input.set 12 0).set 13 0).set 14 (u8to32Little iv 0)).set 15 (u8to32Little iv 4) }

def chachaCount (x : ChachaCtx) : ChachaCtx :=
  let j12 := x.input[12] + 1
  let j13 := if j12 = 0 then x.input[13] + 1 else x.input[13]
  { input := (x.input.set 12 j12).set 13 j13 }

/-- `_chacha_encrypt_bytes` with `KEYSTREAM_ONLY`: the message is not read. -/
def chachaEncryptBytes (x : ChachaCtx) (bytes : Nat) : List UInt8 × ChachaCtx :=
  if bytes = 0 then ([], x)
  else if bytes ≤ 64 then ((chachaBlock x.input).take bytes, chachaCount x)
  else
    let rest := chachaEncryptBytes (chachaCount x) (bytes - 64)
    (chachaBlock x.input ++ rest.1, rest.2)
termination_by bytes

/-! ## The generator -/

abbrev Block := Vector UInt8 rsbufsz

abbrev Entropy := Vector UInt8 40

/-- What the generator has done: a completed stir, a block filled with keystream by a rekey,
and bytes handed out from a position of the block. -/
inductive Event
  | stirred
  | filled (block : Block)
  | handed (position : Nat) (bytes : List UInt8)

/-- `rand_state`, with the history of what was done to it. No function reads the history. -/
structure RandState where
  rsHave : Nat
  rsCount : Nat
  rsChacha : ChachaCtx
  rsBuf : Block
  log : List Event

def Block.zero : Block := Vector.replicate _ 0

def RandState.zero : RandState where
  rsHave := 0
  rsCount := 0
  rsChacha := ⟨Vector.replicate 16 0⟩
  rsBuf := .zero
  log := []

def Block.clear (buf : Block) (start count : Nat) : Block :=
  Vector.ofFn fun i => if start ≤ i.val ∧ i.val < start + count then 0 else buf[i]

def Block.slice (buf : Block) (start count : Nat) : List UInt8 :=
  (buf.toList.drop start).take count

def Block.mix (buf : Block) (dat : List UInt8) : Block :=
  let m := min dat.length (keysz + ivsz)
  Vector.ofFn fun i => if i.val < m then buf[i] ^^^ dat.getD i.val 0 else buf[i]

def rsInit (st : RandState) (buf : List UInt8) : RandState :=
  let ctx := chachaKeysetup st.rsChacha buf (keysz * 8)
  { st with rsChacha := chachaIvsetup ctx (buf.drop keysz) }

def rsRekey (st : RandState) (dat : Option (List UInt8)) : RandState :=
  let keystream := chachaEncryptBytes st.rsChacha rsbufsz
  let block : Block := Vector.ofFn fun i => keystream.1.getD i.val 0
  let mixed := match dat with
    | some dat => block.mix dat
    | none => block
  let st := rsInit { st with rsChacha := keystream.2 } (mixed.slice 0 (keysz + ivsz))
  { st with
    rsBuf := mixed.clear 0 (keysz + ivsz)
    rsHave := rsbufsz - keysz - ivsz
    log := st.log ++ [.filled block] }

def rsStir (st : RandState) (rnd : Entropy) : RandState :=
  let st := rsRekey st (some rnd.toList)
  { st with
    rsHave := 0
    rsBuf := .zero
    rsCount := 1600000
    log := st.log ++ [.stirred] }

/-- `rs_count -= len` is unsigned. -/
def rsStirIfNeeded (abi : Abi) (st : RandState) (len : Nat) (rnd : Entropy) : RandState :=
  let st := if st.rsCount ≤ len then rsStir st rnd else st
  { st with rsCount := abi.sizeT (st.rsCount - len) }

def RandState.hand (st : RandState) (m : Nat) : RandState × List UInt8 :=
  let position := rsbufsz - st.rsHave
  let bytes := st.rsBuf.slice position m
  ({ st with
    rsBuf := st.rsBuf.clear position m
    rsHave := st.rsHave - m
    log := st.log ++ [.handed position bytes] }, bytes)

def rsRandomBufLoop (st : RandState) (n : Nat) : RandState × List UInt8 :=
  if n = 0 then (st, [])
  else if st.rsHave > 0 then
    let m := min n st.rsHave
    let handed := st.hand m
    let rest := rsRandomBufLoop handed.1 (n - m)
    (rest.1, handed.2 ++ rest.2)
  else rsRandomBufLoop (rsRekey st none) n
termination_by (n, if st.rsHave = 0 then 1 else 0)
decreasing_by
  · exact Prod.Lex.left _ _ (by omega)
  · refine Prod.Lex.right _ ?_
    have empty : st.rsHave = 0 := by omega
    simp [empty, rsRekey, rsbufsz, blocksz, keysz, ivsz]

def rsRandomBuf (abi : Abi) (st : RandState) (n : Nat) (rnd : Entropy) :
    RandState × List UInt8 :=
  rsRandomBufLoop (rsStirIfNeeded abi st n rnd) n

def rsRandomU32 (abi : Abi) (st : RandState) (rnd : Entropy) : RandState × List UInt8 :=
  let st := rsStirIfNeeded abi st 4 rnd
  let st := if st.rsHave < 4 then rsRekey st none else st
  st.hand 4

/-! ## Requests -/

structure Host where
  abi : Abi
  wordOf : List UInt8 → UInt32

def uniformMin (upperBound : UInt32) : UInt32 := -upperBound % upperBound

/-- The loop of `arc4random_uniform`, with the entropy of the draws it makes: the accepted
word, or `none` while no draw has been accepted. -/
def uniformLoop (host : Host) (minimum : UInt32) :
    RandState → List Entropy → RandState × Option UInt32
  | st, [] => (st, none)
  | st, rnd :: rnds =>
      let drawn := rsRandomU32 host.abi st rnd
      let r := host.wordOf drawn.2
      if r ≥ minimum then (drawn.1, some r) else uniformLoop host minimum drawn.1 rnds

def arc4randomUniform (host : Host) (st : RandState) (upperBound : UInt32)
    (rnds : List Entropy) : RandState × Option UInt32 :=
  if upperBound < 2 then (st, some 0)
  else
    let drawn := uniformLoop host (uniformMin upperBound) st rnds
    (drawn.1, drawn.2.map (· % upperBound))

inductive Request (abi : Abi)
  | stir (rnd : Entropy)
  | buf (n : Nat) (fits : n < abi.sizeMod) (rnd : Entropy)
  | u32 (rnd : Entropy)
  | uniform (upperBound : UInt32) (rnds : List Entropy)

def serve (host : Host) (st : RandState) : Request host.abi → RandState
  | .stir rnd => rsStir st rnd
  | .buf n _ rnd => (rsRandomBuf host.abi st n rnd).1
  | .u32 rnd => (rsRandomU32 host.abi st rnd).1
  | .uniform upperBound rnds => (arc4randomUniform host st upperBound rnds).1

end LegacySupport.Arc4random
