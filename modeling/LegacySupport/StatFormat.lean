import LegacySupport.Bytes
import LegacySupport.CheckAccess

/-!
The `stat` functions of `statxx.c`: the wrappers that undo what the kernel gets wrong on ppc64 and
under Rosetta, and over them the variants with 64-bit inodes, which work in the caller's buffer.
-/

namespace LegacySupport.StatFormat

open CInt Access Bytes

abbrev Errno := Nat

def efault : Errno := 14

structure Timespec where
  tvSec : Int
  tvNsec : Int
  deriving DecidableEq

structure Stat where
  dev : UInt32
  mode : UInt16
  nlink : UInt16
  ino : UInt32
  uid : UInt32
  gid : UInt32
  rdev : UInt32
  atimespec : Timespec
  mtimespec : Timespec
  ctimespec : Timespec
  size : Int
  blocks : Int
  blksize : Int
  flags : UInt32
  gen : UInt32
  lspare : UInt32
  qspare : UInt64 × UInt64
  deriving DecidableEq

structure Stat64 where
  dev : UInt32
  mode : UInt16
  nlink : UInt16
  ino : UInt64
  uid : UInt32
  gid : UInt32
  rdev : UInt32
  atimespec : Timespec
  mtimespec : Timespec
  ctimespec : Timespec
  birthtimespec : Timespec
  size : Int
  blocks : Int
  blksize : Int
  flags : UInt32
  gen : UInt32
  lspare : UInt32
  qspare : UInt64 × UInt64
  deriving DecidableEq

inductive Request
  | stat (path : List UInt8)
  | lstat (path : List UInt8)
  | fstat (fildes : UInt32)
  | statxNp (path : List UInt8) (fsec : Bool)
  | lstatxNp (path : List UInt8) (fsec : Bool)
  | fstatxNp (fildes : UInt32) (fsec : Bool)
  deriving DecidableEq

inductive Build
  | plain
  | tigerPpc64
  | tigerPpc
  deriving DecidableEq

def osSwapInt32 (value : UInt32) : UInt32 :=
  UInt32.ofNat (decode .big (encode .little 4 value.toNat))

/-- What a kernel without faults would answer, and what this one gets wrong: it leaves something in
the nanoseconds on ppc64, where files have none, and it swaps the descriptor under the Rosetta of
10.4. -/
structure System where
  build : Build
  abi : Abi
  truth : Request → Except Errno Stat
  whole : build = .tigerPpc64 → ∀ r s, truth r = .ok s →
    s.atimespec.tvNsec = 0 ∧ s.mtimespec.tvNsec = 0 ∧ s.ctimespec.tvNsec = 0
  garbage : Request → Int × Int × Int
  procNative : Option Int
  copyfileInit : Bool
  sizeofStat : Nat
  sizeofStat64 : Nat
  smaller : 0 < sizeofStat ∧ sizeofStat < sizeofStat64

variable (system : System)

def System.swaps : Bool := decide (system.procNative = some 0) && system.copyfileInit

def kernel (r : Request) : Except Errno Stat :=
  match system.build, r with
  | .tigerPpc64, r => (system.truth r).map fun s =>
      { s with
        atimespec.tvNsec := (system.garbage r).1
        mtimespec.tvNsec := (system.garbage r).2.1
        ctimespec.tvNsec := (system.garbage r).2.2 }
  | .tigerPpc, .fstatxNp fildes true =>
      system.truth (.fstatxNp (if system.swaps then osSwapInt32 fildes else fildes) true)
  | _, r => system.truth r

def fixStat (result : Except Errno Stat) : Except Errno Stat :=
  result.map fun s =>
    { s with atimespec.tvNsec := 0, mtimespec.tvNsec := 0, ctimespec.tvNsec := 0 }

/-- Test whether it's 10.4 Rosetta: -1 no, 1 yes. -/
def isTigerRosetta : Int :=
  match system.procNative with
  | none => -1
  | some native => if native ≠ 0 then -1 else if system.copyfileInit then 1 else -1

/-- The function without 64-bit inodes, with the static `tiger_rosetta` of `fstatx_np`. -/
def plainStat (r : Request) (tigerRosetta : Int) : Except Errno Stat × Int :=
  match system.build, r with
  | .plain, r => (kernel system r, tigerRosetta)
  | .tigerPpc64, r => (fixStat (kernel system r), tigerRosetta)
  | .tigerPpc, .fstatxNp fildes fsec =>
      if tigerRosetta < 0 ∨ fsec = false then (kernel system (.fstatxNp fildes fsec), tigerRosetta)
      else
        let tigerRosetta := if tigerRosetta = 0 then isTigerRosetta system else tigerRosetta
        let fildes := if tigerRosetta ≥ 0 then osSwapInt32 fildes else fildes
        (kernel system (.fstatxNp fildes fsec), tigerRosetta)
  | .tigerPpc, r => (kernel system r, tigerRosetta)

inductive StatBuf
  | other
  | s (stat : Stat)
  | s64 (stat : Stat64)

inductive Outcome
  | fault
  | returned (ret : Int) (errno : Option Errno) (sb : StatBuf)

structure Call (system : System) where
  request : Request
  page : Nat
  map : VmMap page
  short : system.sizeofStat64 - system.sizeofStat ≤ page
  buf : Nat
  below : buf + system.sizeofStat64 < system.abi.sizeMod

def birthtime (ctimespec mtimespec : Timespec) : Timespec :=
  if ctimespec.tvSec < mtimespec.tvSec ∨
      (ctimespec.tvSec = mtimespec.tvSec ∧ ctimespec.tvNsec < mtimespec.tvNsec) then ctimespec
  else mtimespec

def stat64Of (s : Stat) : Stat64 where
  dev := s.dev
  mode := s.mode
  nlink := s.nlink
  ino := s.ino.toUInt64
  uid := s.uid
  gid := s.gid
  rdev := s.rdev
  atimespec := s.atimespec
  mtimespec := s.mtimespec
  ctimespec := s.ctimespec
  birthtimespec := birthtime s.ctimespec s.mtimespec
  size := s.size
  blocks := s.blocks
  blksize := s.blksize
  flags := s.flags
  gen := s.gen
  lspare := s.lspare
  qspare := s.qspare

def convertStat (call : Call system) (result : Except Errno Stat) : Outcome :=
  match result with
  | .error error => .returned (-1) (some error) .other
  | .ok stat =>
      if mplsCheckAccess system.abi call.page call.map.regions (call.buf + system.sizeofStat)
          (system.sizeofStat64 - system.sizeofStat) vmProtWrite (some call.buf) ≠ 0 then
        .returned (-1) (some efault) (.s stat)
      else if Writable call.map.regions call.buf system.sizeofStat64 then
        .returned 0 none (.s64 (stat64Of stat))
      else .fault

/-- `stat$INODE64` and the other five. The buffer is given to the function without 64-bit inodes,
whose system call writes its smaller structure there. -/
def statInode64 (call : Call system) (tigerRosetta : Int) : Outcome × Int :=
  let (result, tigerRosetta) := plainStat system call.request tigerRosetta
  let result := result.bind fun stat =>
    if Writable call.map.regions call.buf system.sizeofStat then .ok stat else .error efault
  (convertStat system call result, tigerRosetta)

def run : List (Call system) → Int → List Outcome
  | [], _ => []
  | call :: calls, tigerRosetta =>
      let (outcome, tigerRosetta) := statInode64 system call tigerRosetta
      outcome :: run calls tigerRosetta

/-! ## The wrappers -/

def Stat64.narrow (s64 : Stat64) : Stat where
  dev := s64.dev
  mode := s64.mode
  nlink := s64.nlink
  ino := s64.ino.toUInt32
  uid := s64.uid
  gid := s64.gid
  rdev := s64.rdev
  atimespec := s64.atimespec
  mtimespec := s64.mtimespec
  ctimespec := s64.ctimespec
  size := s64.size
  blocks := s64.blocks
  blksize := s64.blksize
  flags := s64.flags
  gen := s64.gen
  lspare := s64.lspare
  qspare := s64.qspare

def Timespec.key (t : Timespec) : Int ×ₗ Int := toLex (t.tvSec, t.tvNsec)

structure Stat64.Widens (s64 : Stat64) (s : Stat) : Prop where
  fields : s64.narrow = s
  ino : s64.ino = s.ino.toUInt64
  birth : s64.birthtimespec.key = min s.ctimespec.key s.mtimespec.key

theorem stat64Of_widens (s : Stat) : (stat64Of s).Widens s := by
  refine ⟨?_, rfl, ?_⟩
  · simp [stat64Of, Stat64.narrow]
  · have order : s.ctimespec.key < s.mtimespec.key ↔
        s.ctimespec.tvSec < s.mtimespec.tvSec ∨
          (s.ctimespec.tvSec = s.mtimespec.tvSec ∧ s.ctimespec.tvNsec < s.mtimespec.tvNsec) :=
      Prod.Lex.toLex_lt_toLex
    simp only [stat64Of, birthtime, ← order]
    split
    next before => exact (min_eq_left before.le).symm
    next after => exact (min_eq_right (not_lt.mp after)).symm

theorem osSwapInt32_osSwapInt32 (value : UInt32) : osSwapInt32 (osSwapInt32 value) = value := by
  have small := value.toNat_lt
  have swapped : decode .big (encode .little 4 value.toNat) < 256 ^ 4 := by
    simpa using decode_lt .big (encode .little 4 value.toNat)
  have back : decode .big (encode .little 4 (decode .big (encode .little 4 value.toNat))) =
      value.toNat := by
    have length : (encode .little 4 value.toNat).reverse.length = 4 := by simp
    have again : encode .little 4 (decode .big (encode .little 4 value.toNat)) =
        (encode .little 4 value.toNat).reverse := by
      have same := encodeLittle_decodeLittle (encode .little 4 value.toNat).reverse
      rwa [length] at same
    have original : decode .little (encode .little 4 value.toNat) = value.toNat :=
      decode_encode (by omega)
    rw [again, decode, List.reverse_reverse]
    exact original
  rw [osSwapInt32, osSwapInt32, UInt32.toNat_ofNat_of_lt' (by simpa using swapped), back,
    UInt32.ofNat_toNat]

variable {system}

theorem isTigerRosetta_nonneg : 0 ≤ isTigerRosetta system ↔ system.swaps = true := by
  unfold isTigerRosetta System.swaps
  cases system.procNative with
  | none => simp
  | some native =>
      by_cases foreign : native = 0 <;> cases system.copyfileInit <;> simp [foreign]

def Known (system : System) (tigerRosetta : Int) : Prop :=
  tigerRosetta = 0 ∨ tigerRosetta = isTigerRosetta system

theorem fixStat_garbage {s : Stat} (garbage : Int × Int × Int) (a : s.atimespec.tvNsec = 0)
    (m : s.mtimespec.tvNsec = 0) (c : s.ctimespec.tvNsec = 0) :
    fixStat (.ok { s with
      atimespec.tvNsec := garbage.1
      mtimespec.tvNsec := garbage.2.1
      ctimespec.tvNsec := garbage.2.2 }) = .ok s := by
  have atime : { s.atimespec with tvNsec := 0 } = s.atimespec := by rw [← a]
  have mtime : { s.mtimespec with tvNsec := 0 } = s.mtimespec := by rw [← m]
  have ctime : { s.ctimespec with tvNsec := 0 } = s.ctimespec := by rw [← c]
  simp only [fixStat, Except.map, atime, mtime, ctime]

theorem kernel_fstatxNp (build : system.build = .tigerPpc) (fildes : UInt32) :
    kernel system (.fstatxNp (if system.swaps then osSwapInt32 fildes else fildes) true) =
      system.truth (.fstatxNp fildes true) := by
  cases swaps : system.swaps <;> simp [kernel, build, swaps, osSwapInt32_osSwapInt32]

theorem plainStat_truth (r : Request) {tigerRosetta : Int} (known : Known system tigerRosetta) :
    (plainStat system r tigerRosetta).1 = system.truth r ∧
      Known system (plainStat system r tigerRosetta).2 := by
  unfold plainStat
  cases build : system.build with
  | plain => exact ⟨by simp [kernel, build], known⟩
  | tigerPpc64 =>
      refine ⟨?_, known⟩
      cases answer : system.truth r with
      | error error =>
          simp only [kernel, build, answer]
          rfl
      | ok s =>
          obtain ⟨a, m, c⟩ := system.whole build r s answer
          simp only [kernel, build, answer]
          exact fixStat_garbage (system.garbage r) a m c
  | tigerPpc =>
      cases r with
      | stat path => exact ⟨by simp [kernel, build], known⟩
      | lstat path => exact ⟨by simp [kernel, build], known⟩
      | fstat fildes => exact ⟨by simp [kernel, build], known⟩
      | statxNp path fsec => exact ⟨by simp [kernel, build], known⟩
      | lstatxNp path fsec => exact ⟨by simp [kernel, build], known⟩
      | fstatxNp fildes fsec =>
          cases fsec with
          | false => simpa [kernel, build] using known
          | true =>
              have kept : Known system (isTigerRosetta system) := .inr rfl
              have fixed := kernel_fstatxNp build fildes
              have swapped : (if isTigerRosetta system ≥ 0 then osSwapInt32 fildes else fildes) =
                  if system.swaps then osSwapInt32 fildes else fildes := by
                simp only [ge_iff_le, isTigerRosetta_nonneg]
              simp only [reduceCtorEq, or_false]
              by_cases negative : tigerRosetta < 0
              · have value : tigerRosetta = isTigerRosetta system := by
                  rcases known with rfl | value
                  · omega
                  · exact value
                rw [if_pos negative]
                refine ⟨?_, known⟩
                have native : ¬ 0 ≤ isTigerRosetta system := by omega
                rw [isTigerRosetta_nonneg] at native
                rwa [if_neg native] at fixed
              · have value : (if tigerRosetta = 0 then isTigerRosetta system else tigerRosetta) =
                    isTigerRosetta system := by
                  rcases known with rfl | value
                  · exact if_pos rfl
                  · rw [value, ite_self]
                rw [if_neg negative, value]
                refine ⟨?_, kept⟩
                rw [swapped]
                exact fixed

/-! ## The buffer -/

/-- What a call is to come to: the error of the file or of the buffer, or the whole structure. -/
def Answers (call : Call system) (outcome : Outcome) : Prop :=
  match system.truth call.request with
  | .error error => ∃ sb, outcome = .returned (-1) (some error) sb
  | .ok s =>
      if Writable call.map.regions call.buf system.sizeofStat64 then
        ∃ s64 : Stat64, s64.Widens s ∧ outcome = .returned 0 none (.s64 s64)
      else ∃ sb, outcome = .returned (-1) (some efault) sb

theorem hintHolds_written {page : Nat} (map : VmMap page) {buf size : Nat} (positive : 0 < size)
    (written : Writable map.regions buf size = true) :
    HintHolds page map.regions vmProtWrite (some buf) := by
  rintro hint ⟨⟩ address same
  rw [writable_iff] at written
  obtain ⟨region, member, contains, permits⟩ := written buf le_rfl (by omega)
  exact ⟨region, member, map.contains_page member contains same, permits⟩

theorem writable_whole {regions : List Region} {buf first second : Nat}
    (written : Writable regions buf first = true) :
    Writable regions buf (first + second) = true ↔
      Writable regions (buf + first) second = true := by
  constructor
  · exact fun whole => writable_part whole le_rfl
  · intro rest
    rw [writable_iff] at *
    intro address lower upper
    by_cases early : address < buf + first
    · exact written address lower early
    · exact rest address (by omega) (by omega)

theorem statInode64_answers (call : Call system) {tigerRosetta : Int}
    (known : Known system tigerRosetta) :
    Answers call (statInode64 system call tigerRosetta).1 ∧
      Known system (statInode64 system call tigerRosetta).2 := by
  obtain ⟨answer, kept⟩ := plainStat_truth call.request known
  refine ⟨?_, kept⟩
  obtain ⟨positive, smaller⟩ := system.smaller
  unfold Answers
  simp only [statInode64, answer]
  cases system.truth call.request with
  | error error => exact ⟨.other, rfl⟩
  | ok s =>
      have sizes : system.sizeofStat64 =
          system.sizeofStat + (system.sizeofStat64 - system.sizeofStat) := by omega
      simp only [Except.bind]
      cases written : Writable call.map.regions call.buf system.sizeofStat with
      | false =>
          have partly : ¬ Writable call.map.regions call.buf system.sizeofStat64 = true := by
            intro whole
            have start : Writable call.map.regions (call.buf + 0) system.sizeofStat = true :=
              writable_part whole (by omega)
            rw [Nat.add_zero, written] at start
            cases start
          rw [if_neg partly]
          exact ⟨.other, rfl⟩
      | true =>
          have end_below : call.buf + system.sizeofStat +
              (system.sizeofStat64 - system.sizeofStat) < system.abi.sizeMod := by
            have below := call.below
            omega
          have checked := mplsCheckAccess_short system.abi call.map vmProtWrite (by omega)
            call.short end_below (hintHolds_written call.map positive written)
          rw [← writable_iff, ← writable_whole written, ← sizes] at checked
          simp only [convertStat, ne_eq, checked]
          by_cases whole : Writable call.map.regions call.buf system.sizeofStat64 = true
          · simp only [whole, not_true, if_false, if_true]
            exact ⟨stat64Of s, stat64Of_widens s, rfl⟩
          · simp only [whole, if_true]
            exact ⟨.s s, by simp⟩

/-- In a run of calls of the functions with 64-bit inodes, whatever the kernel gets wrong, each
brings the file's true data, or the error, with every field as it was and the earlier of two times
for the birth time; a buffer that cannot be written as a whole is refused and never faults. -/
theorem statInode64_run (calls : List (Call system)) :
    List.Forall₂ Answers calls (run system calls 0) := by
  have all : ∀ (calls : List (Call system)) (tigerRosetta : Int), Known system tigerRosetta →
      List.Forall₂ Answers calls (run system calls tigerRosetta) := by
    intro calls
    induction calls with
    | nil => exact fun _ _ => .nil
    | cons call calls ih =>
        intro tigerRosetta known
        obtain ⟨answers, kept⟩ := statInode64_answers call known
        exact .cons answers (ih _ kept)
  exact all calls 0 (.inl rfl)

end LegacySupport.StatFormat
