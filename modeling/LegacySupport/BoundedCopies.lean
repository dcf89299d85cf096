import Mathlib

/-!
`strnlen`, `stpncpy`, `__stpncpy_chk` and the wide `wcsnlen`, `wcpncpy`, over a memory in which some
addresses are not mapped. The narrow functions measure the string and then copy it in one go; the
wide ones are written another way, and come to the same.
-/

namespace LegacySupport.BoundedCopies

/-- A memory of characters, narrow or wide. An address may not be mapped. -/
abbrev Memory (α : Type) := Nat → Option α

section Functions

variable {α : Type} [Zero α] [DecidableEq α]

def store (m : Memory α) (adr : Nat) (c : α) : Option (Memory α) :=
  if (m adr).isSome then some (Function.update m adr (some c)) else none

def strnlenLoop (m : Memory α) (s len i : Nat) : Option Nat :=
  if i < len then do
    let c ← m (s + i)
    if c ≠ 0 then strnlenLoop m s len (i + 1) else some i
  else some i
termination_by len - i

def strnlen (m : Memory α) (s len : Nat) : Option Nat := strnlenLoop m s len 0

def wmemchr (m : Memory α) (s : Nat) (c : α) : Nat → Option (Option Nat)
  | 0 => some none
  | n + 1 => do
      let found ← m s
      if found = c then some (some s) else wmemchr m (s + 1) c n

def wcsnlen (m : Memory α) (s n : Nat) : Option Nat := do
  match ← wmemchr m s 0 n with
  | some z => some (z - s)
  | none => some n

def memcpy (m : Memory α) (dst src : Nat) : Nat → Option (Memory α)
  | 0 => some m
  | n + 1 => do
      let c ← m src
      let m ← store m dst c
      memcpy m (dst + 1) (src + 1) n

def memset (m : Memory α) (dst : Nat) (c : α) : Nat → Option (Memory α)
  | 0 => some m
  | n + 1 => do
      let m ← store m dst c
      memset m (dst + 1) c n

def stpncpy (m : Memory α) (dst src maxlen : Nat) : Option (Nat × Memory α) := do
  let srclen ← strnlen m src maxlen
  if srclen < maxlen then
    let m ← memcpy m dst src srclen
    let m ← memset m (dst + srclen) 0 (maxlen - srclen)
    some (dst + srclen, m)
  else
    let m ← memcpy m dst src maxlen
    some (dst + maxlen, m)

/-- The loop, with what it leaves in `d` and `n`. `wmemset` gives back the address it gets. -/
def wcpncpy (m : Memory α) (d s : Nat) : Nat → Option (Nat × Memory α)
  | 0 => do
      let m ← memset m d 0 0
      some (d, m)
  | n + 1 => do
      let c ← m s
      if c ≠ 0 then
        let m ← store m d c
        wcpncpy m (d + 1) (s + 1) n
      else
        let m ← memset m d 0 (n + 1)
        some (d, m)

inductive Checked (α : Type)
  | aborted
  | fault
  | copied (result : Nat) (m : Memory α)

def stpncpyChk (m : Memory α) (dest src len dstlen : Nat) : Checked α :=
  if dstlen < len then .aborted
  else
    match stpncpy m dest src len with
    | some (result, m) => .copied result m
    | none => .fault

end Functions

variable {α : Type}

/-! ## Ranges -/

theorem store_iff (m m' : Memory α) (adr : Nat) (c : α) :
    store m adr c = some m' ↔
      (m adr).isSome = true ∧ m' = Function.update m adr (some c) := by
  unfold store
  split
  next there => simp only [there, true_and, Option.some.injEq, eq_comm]
  next absent => simp [absent]

def Mapped (m : Memory α) (adr n : Nat) : Prop := ∀ j < n, (m (adr + j)).isSome = true

def filled (m : Memory α) (dst n : Nat) (contents : Nat → Option α) : Memory α :=
  fun a => if dst ≤ a ∧ a < dst + n then contents (a - dst) else m a

theorem mapped_succ (m : Memory α) (adr n : Nat) :
    Mapped m adr (n + 1) ↔ (m adr).isSome = true ∧ Mapped m (adr + 1) n := by
  constructor
  · intro mapped
    refine ⟨mapped 0 (Nat.succ_pos n), fun j inside => ?_⟩
    rw [Nat.add_assoc, Nat.add_comm 1 j]
    exact mapped (j + 1) (Nat.succ_lt_succ inside)
  · rintro ⟨first, rest⟩ j inside
    cases j with
    | zero => exact first
    | succ j =>
        have after := rest j (Nat.lt_of_succ_lt_succ inside)
        rwa [Nat.add_assoc, Nat.add_comm 1 j] at after

theorem filled_zero (m : Memory α) (dst : Nat) (contents : Nat → Option α) :
    filled m dst 0 contents = m := by
  funext a
  exact if_neg (by omega)

theorem filled_update (m : Memory α) (dst n : Nat) (contents : Nat → Option α) :
    filled (Function.update m dst (contents 0)) (dst + 1) n (fun j => contents (j + 1)) =
      filled m dst (n + 1) contents := by
  funext a
  unfold filled
  by_cases inside : dst + 1 ≤ a ∧ a < dst + 1 + n
  · have position : a - (dst + 1) + 1 = a - dst := by omega
    rw [if_pos inside, if_pos (by omega)]
    exact congrArg contents position
  · rw [if_neg inside]
    rcases eq_or_ne a dst with rfl | differs
    · rw [Function.update_self, if_pos (by omega), Nat.sub_self]
    · rw [Function.update_of_ne differs, if_neg (by omega)]

theorem filled_congr {m : Memory α} {dst n : Nat} {contents other : Nat → Option α}
    (same : ∀ j < n, contents j = other j) : filled m dst n contents = filled m dst n other := by
  funext a
  unfold filled
  split
  next inside => exact same (a - dst) (by omega)
  next => rfl

theorem mapped_update (m : Memory α) (dst adr n : Nat) (c : α) (there : (m dst).isSome = true) :
    Mapped (Function.update m dst (some c)) adr n ↔ Mapped m adr n := by
  refine forall₂_congr fun j _ => ?_
  rcases eq_or_ne (adr + j) dst with same | differs
  · rw [same, Function.update_self]
    simp [there]
  · rw [Function.update_of_ne differs]

theorem mapped_append (m : Memory α) (adr first second : Nat) :
    Mapped m adr (first + second) ↔ Mapped m adr first ∧ Mapped m (adr + first) second := by
  constructor
  · intro mapped
    refine ⟨fun j inside => mapped j (by omega), fun j inside => ?_⟩
    rw [Nat.add_assoc]
    exact mapped (first + j) (by omega)
  · rintro ⟨before, after⟩ j inside
    by_cases early : j < first
    · exact before j early
    · have later := after (j - first) (by omega)
      have position : adr + first + (j - first) = adr + j := by omega
      rwa [position] at later

theorem mapped_filled (m : Memory α) (dst n adr count : Nat) {contents : Nat → Option α}
    (some_there : ∀ j < n, (contents j).isSome = true) (mapped : Mapped m dst n) :
    Mapped (filled m dst n contents) adr count ↔ Mapped m adr count := by
  refine forall₂_congr fun j _ => ?_
  unfold filled
  split
  next inside =>
    have there := mapped (adr + j - dst) (by omega)
    have position : dst + (adr + j - dst) = adr + j := by omega
    rw [position] at there
    exact iff_of_true (some_there _ (by omega)) there
  next => exact Iff.rfl

theorem memset_iff (c : α) (n : Nat) : ∀ (m m' : Memory α) (dst : Nat),
    memset m dst c n = some m' ↔
      Mapped m dst n ∧ m' = filled m dst n fun _ => some c := by
  induction n with
  | zero =>
      intro m m' dst
      simp only [memset, filled_zero, Option.some.injEq]
      exact ⟨fun same => ⟨fun _ none => absurd none (Nat.not_lt_zero _), same.symm⟩,
        fun same => same.2.symm⟩
  | succ n ih =>
      intro m m' dst
      simp only [memset, Option.bind_eq_bind, Option.bind_eq_some_iff, store_iff, mapped_succ, ih]
      constructor
      · rintro ⟨after, ⟨there, rfl⟩, rest, rfl⟩
        exact ⟨⟨there, (mapped_update m dst _ n c there).mp rest⟩,
          filled_update m dst n fun _ => some c⟩
      · rintro ⟨⟨there, rest⟩, rfl⟩
        exact ⟨_, ⟨there, rfl⟩, (mapped_update m dst _ n c there).mpr rest,
          (filled_update m dst n fun _ => some c).symm⟩

def Apart (dst src n : Nat) : Prop := dst + n ≤ src ∨ src + n ≤ dst

theorem memcpy_iff (n : Nat) : ∀ (m m' : Memory α) (dst src : Nat), Apart dst src n →
    (memcpy m dst src n = some m' ↔
      Mapped m src n ∧ Mapped m dst n ∧ m' = filled m dst n fun j => m (src + j)) := by
  induction n with
  | zero =>
      intro m m' dst src _
      simp only [memcpy, filled_zero, Option.some.injEq]
      have nothing : ∀ adr, Mapped m adr 0 := fun _ _ none => absurd none (Nat.not_lt_zero _)
      exact ⟨fun same => ⟨nothing src, nothing dst, same.symm⟩, fun same => same.2.2.symm⟩
  | succ n ih =>
      intro m m' dst src apart
      unfold Apart at apart
      have rest_apart : Apart (dst + 1) (src + 1) n := by
        unfold Apart
        omega
      -- The rest of the source is still what it was.
      have source : ∀ c, some c = m src →
          filled (Function.update m dst (some c)) (dst + 1) n
            (fun j => Function.update m dst (some c) (src + 1 + j)) =
          filled m dst (n + 1) fun j => m (src + j) := by
        intro c there
        rw [← filled_update m dst n]
        simp only [Nat.add_zero, ← there]
        refine filled_congr fun j inside => ?_
        rw [Function.update_of_ne (by omega), Nat.add_assoc, Nat.add_comm 1 j]
      simp only [memcpy, Option.bind_eq_bind, Option.bind_eq_some_iff, store_iff, mapped_succ]
      constructor
      · rintro ⟨c, found, after, ⟨there, rfl⟩, rest⟩
        obtain ⟨reads, writes, rfl⟩ := (ih _ m' (dst + 1) (src + 1) rest_apart).mp rest
        rw [mapped_update m dst _ n c there] at reads writes
        exact ⟨⟨by rw [found]; rfl, reads⟩, ⟨there, writes⟩, source c found.symm⟩
      · rintro ⟨⟨first, reads⟩, ⟨there, writes⟩, rfl⟩
        obtain ⟨c, found⟩ := Option.isSome_iff_exists.mp first
        refine ⟨c, found, _, ⟨there, rfl⟩, ?_⟩
        refine (ih _ _ (dst + 1) (src + 1) rest_apart).mpr ⟨?_, ?_, (source c found.symm).symm⟩
        · rwa [mapped_update m dst _ n c there]
        · rwa [mapped_update m dst _ n c there]

/-! ## Strings -/

variable [Zero α]

/-- The string at the address has `k` characters, or at least as many and `k` is the bound. -/
structure Measures (m : Memory α) (s len k : Nat) : Prop where
  bound : k ≤ len
  before : ∀ j < k, ∃ c, m (s + j) = some c ∧ c ≠ 0
  stop : k < len → m (s + k) = some 0

theorem measures_zero (m : Memory α) (s k : Nat) : Measures m s 0 k ↔ k = 0 := by
  constructor
  · exact fun measures => Nat.le_zero.mp measures.bound
  · rintro rfl
    exact ⟨le_rfl, fun _ none => absurd none (Nat.not_lt_zero _), fun none =>
      absurd none (Nat.lt_irrefl _)⟩

theorem measures_congr {m other : Memory α} {s n : Nat}
    (same : ∀ j < n, other (s + j) = m (s + j)) (k : Nat) :
    Measures other s n k ↔ Measures m s n k := by
  constructor
  · rintro ⟨bound, before, stop⟩
    refine ⟨bound, fun j inside => ?_, fun short => ?_⟩
    · rw [← same j (by omega)]
      exact before j inside
    · rw [← same k short]
      exact stop short
  · rintro ⟨bound, before, stop⟩
    refine ⟨bound, fun j inside => ?_, fun short => ?_⟩
    · rw [same j (by omega)]
      exact before j inside
    · rw [same k short]
      exact stop short

theorem Measures.mapped {m : Memory α} {src n k : Nat} (measures : Measures m src n k) :
    Mapped m src k := by
  intro j inside
  obtain ⟨c, there, _⟩ := measures.before j inside
  rw [there]
  rfl

def padded (m : Memory α) (src k : Nat) (j : Nat) : Option α :=
  if j < k then m (src + j) else some 0

theorem filled_padded (m : Memory α) (dst src : Nat) {n k : Nat} (bound : k ≤ n) :
    filled (filled m dst k fun j => m (src + j)) (dst + k) (n - k) (fun _ => some 0) =
      filled m dst n (padded m src k) := by
  funext a
  unfold filled padded
  by_cases outside : a < dst ∨ dst + n ≤ a
  · rw [if_neg (by omega), if_neg (by omega), if_neg (by omega)]
  · by_cases early : a < dst + k
    · rw [if_neg (by omega), if_pos (by omega), if_pos (by omega), if_pos (by omega)]
    · rw [if_pos (by omega), if_pos (by omega), if_neg (by omega)]

theorem padded_update (m : Memory α) {dst src n k : Nat} {c : α} (apart : Apart dst src (n + 1))
    (there : m src = some c) (bound : k ≤ n) :
    filled (Function.update m dst (some c)) (dst + 1) n
        (padded (Function.update m dst (some c)) (src + 1) k) =
      filled m dst (n + 1) (padded m src (k + 1)) := by
  unfold Apart at apart
  have first : padded m src (k + 1) 0 = some c := by
    rw [padded, if_pos (Nat.succ_pos k), Nat.add_zero, there]
  rw [← filled_update m dst n, first]
  refine filled_congr fun j inside => ?_
  unfold padded
  by_cases early : j < k
  · rw [if_pos early, if_pos (Nat.succ_lt_succ early), Function.update_of_ne (by omega),
      Nat.add_assoc, Nat.add_comm 1 j]
  · rw [if_neg early, if_neg (by omega)]

variable [DecidableEq α]

theorem measures_succ (m : Memory α) (s n k : Nat) :
    Measures m s (n + 1) k ↔
      ∃ c, m s = some c ∧ if c = 0 then k = 0 else ∃ j, k = j + 1 ∧ Measures m (s + 1) n j := by
  constructor
  · rintro ⟨bound, before, stop⟩
    cases k with
    | zero => exact ⟨0, stop (Nat.succ_pos n), by rw [if_pos rfl]⟩
    | succ k =>
        obtain ⟨c, there, nonzero⟩ := before 0 (Nat.succ_pos k)
        refine ⟨c, there, ?_⟩
        rw [if_neg nonzero]
        refine ⟨k, rfl, Nat.le_of_succ_le_succ bound, fun j inside => ?_, fun short => ?_⟩
        · rw [Nat.add_assoc, Nat.add_comm 1 j]
          exact before (j + 1) (Nat.succ_lt_succ inside)
        · rw [Nat.add_assoc, Nat.add_comm 1 k]
          exact stop (Nat.succ_lt_succ short)
  · rintro ⟨c, there, rest⟩
    split at rest
    next zero =>
      subst zero rest
      exact ⟨Nat.zero_le _, fun _ none => absurd none (Nat.not_lt_zero _), fun _ => there⟩
    next nonzero =>
      obtain ⟨j, rfl, bound, before, stop⟩ := rest
      refine ⟨Nat.succ_le_succ bound, fun i inside => ?_, fun short => ?_⟩
      · cases i with
        | zero => exact ⟨c, there, nonzero⟩
        | succ i =>
            have after := before i (Nat.lt_of_succ_lt_succ inside)
            rwa [Nat.add_assoc, Nat.add_comm 1 i] at after
      · have after := stop (Nat.lt_of_succ_lt_succ short)
        rwa [Nat.add_assoc, Nat.add_comm 1 j] at after

theorem strnlenLoop_iff (m : Memory α) (s len i k : Nat) :
    strnlenLoop m s (i + len) i = some k ↔ ∃ j, k = i + j ∧ Measures m (s + i) len j := by
  induction len generalizing i with
  | zero =>
      rw [strnlenLoop, if_neg (by omega)]
      simp only [measures_zero, Option.some.injEq]
      constructor
      · rintro rfl
        exact ⟨0, rfl, rfl⟩
      · rintro ⟨j, rfl, rfl⟩
        rfl
  | succ len ih =>
      have further := ih (i + 1)
      have bound : i + (len + 1) = i + 1 + len := by omega
      rw [strnlenLoop, if_pos (by omega), bound]
      simp only [measures_succ, Option.bind_eq_bind, Option.bind_eq_some_iff]
      constructor
      · rintro ⟨c, there, rest⟩
        split at rest
        next nonzero =>
          obtain ⟨j, rfl, measures⟩ := further.mp rest
          exact ⟨j + 1, by omega, c, there, by rw [if_neg nonzero]; exact ⟨j, rfl, measures⟩⟩
        next zero =>
          rw [not_not] at zero
          cases rest
          exact ⟨0, rfl, c, there, by rw [if_pos zero]⟩
      · rintro ⟨j, rfl, c, there, rest⟩
        refine ⟨c, there, ?_⟩
        split at rest
        next zero =>
          subst rest
          rw [if_neg (not_not.mpr zero)]
          rfl
        next nonzero =>
          obtain ⟨l, rfl, measures⟩ := rest
          rw [if_pos nonzero]
          exact further.mpr ⟨l, by omega, measures⟩

theorem strnlen_iff (m : Memory α) (s len k : Nat) :
    strnlen m s len = some k ↔ Measures m s len k := by
  have loop := strnlenLoop_iff m s len 0 k
  simpa [strnlen] using loop

theorem wmemchr_iff (m : Memory α) (s n : Nat) (found : Option Nat) :
    wmemchr m s 0 n = some found ↔
      ∃ k, Measures m s n k ∧ found = if k < n then some (s + k) else none := by
  induction n generalizing s with
  | zero =>
      simp only [wmemchr, measures_zero, exists_eq_left, Nat.lt_irrefl, if_false,
        Option.some.injEq]
      exact eq_comm
  | succ n ih =>
      have further := ih (s + 1)
      simp only [wmemchr, measures_succ, Option.bind_eq_bind, Option.bind_eq_some_iff]
      constructor
      · rintro ⟨c, there, rest⟩
        split at rest
        next zero =>
          cases rest
          exact ⟨0, ⟨c, there, by rw [if_pos zero]⟩, (if_pos (Nat.succ_pos n)).symm⟩
        next nonzero =>
          obtain ⟨k, measures, rfl⟩ := further.mp rest
          refine ⟨k + 1, ⟨c, there, by rw [if_neg nonzero]; exact ⟨k, rfl, measures⟩⟩, ?_⟩
          simp only [Nat.succ_lt_succ_iff, Nat.add_right_comm, ← Nat.add_assoc]
      · rintro ⟨k, ⟨c, there, rest⟩, rfl⟩
        refine ⟨c, there, ?_⟩
        split at rest
        next zero =>
          subst rest
          rw [if_pos zero, if_pos (Nat.succ_pos n), Nat.add_zero]
        next nonzero =>
          obtain ⟨j, rfl, measures⟩ := rest
          rw [if_neg nonzero]
          refine further.mpr ⟨j, measures, ?_⟩
          simp only [Nat.succ_lt_succ_iff, Nat.add_right_comm, ← Nat.add_assoc]

theorem wcsnlen_iff (m : Memory α) (s n k : Nat) :
    wcsnlen m s n = some k ↔ Measures m s n k := by
  simp only [wcsnlen, Option.bind_eq_bind, Option.bind_eq_some_iff, wmemchr_iff]
  constructor
  · rintro ⟨found, ⟨j, measures, rfl⟩, result⟩
    by_cases inside : j < n
    · rw [if_pos inside] at result
      simp only [Nat.add_sub_cancel_left, Option.some.injEq] at result
      exact result ▸ measures
    · rw [if_neg inside] at result
      simp only [Option.some.injEq] at result
      have whole : j = k := by
        have bound := measures.bound
        omega
      exact whole ▸ measures
  · intro measures
    refine ⟨_, ⟨k, measures, rfl⟩, ?_⟩
    by_cases inside : k < n
    · rw [if_pos inside]
      simp
    · have whole : n = k := by
        have bound := measures.bound
        omega
      rw [if_neg inside, whole]

/-! ## The two families -/

def Copies (m : Memory α) (dst src n : Nat) (result : Nat × Memory α) : Prop :=
  ∃ k, Measures m src n k ∧ Mapped m dst n ∧
    result = (dst + k, filled m dst n (padded m src k))

theorem stpncpy_iff (m : Memory α) {dst src n : Nat} (apart : Apart dst src n)
    (result : Nat × Memory α) :
    stpncpy m dst src n = some result ↔ Copies m dst src n result := by
  unfold Copies
  simp only [stpncpy, Option.bind_eq_bind, Option.bind_eq_some_iff, strnlen_iff]
  refine exists_congr fun k => and_congr_right fun measures => ?_
  have bound := measures.bound
  have reads := measures.mapped
  have part_apart : Apart dst src k := by
    unfold Apart at apart ⊢
    omega
  have total : k + (n - k) = n := by omega
  have range := mapped_append m dst k (n - k)
  rw [total] at range
  split
  next short =>
    simp only [Option.bind_eq_some_iff, memcpy_iff k _ _ _ _ part_apart, memset_iff,
      Option.some.injEq]
    have rest := mapped_filled m dst k (dst + k) (n - k) reads
    constructor
    · rintro ⟨first, ⟨_, writes, rfl⟩, last, ⟨zeros, rfl⟩, rfl⟩
      rw [filled_padded m dst src bound]
      exact ⟨range.mpr ⟨writes, (rest writes).mp zeros⟩, rfl⟩
    · rintro ⟨mapped, rfl⟩
      obtain ⟨writes, zeros⟩ := range.mp mapped
      exact ⟨_, ⟨reads, writes, rfl⟩, _, ⟨(rest writes).mpr zeros, rfl⟩, by
        rw [filled_padded m dst src bound]⟩
  next whole =>
    have full : k = n := by omega
    subst full
    simp only [Option.bind_eq_some_iff, memcpy_iff k _ _ _ _ part_apart, Option.some.injEq]
    have same : (filled m dst k fun j => m (src + j)) = filled m dst k (padded m src k) :=
      filled_congr fun j inside => (if_pos inside).symm
    constructor
    · rintro ⟨first, ⟨_, writes, rfl⟩, rfl⟩
      exact ⟨writes, by rw [same]⟩
    · rintro ⟨writes, rfl⟩
      exact ⟨_, ⟨reads, writes, rfl⟩, by rw [same]⟩

theorem copies_succ (m : Memory α) {dst src n : Nat} (apart : Apart dst src (n + 1)) {c : α}
    (there : m src = some c) (nonzero : c ≠ 0) (writable : (m dst).isSome = true)
    (result : Nat × Memory α) :
    Copies (Function.update m dst (some c)) (dst + 1) (src + 1) n result ↔
      Copies m dst src (n + 1) result := by
  have kept : ∀ j < n, Function.update m dst (some c) (src + 1 + j) = m (src + 1 + j) := by
    intro j inside
    unfold Apart at apart
    exact Function.update_of_ne (by omega) _ _
  unfold Copies
  simp only [measures_congr kept, mapped_update m dst _ n c writable, mapped_succ, writable,
    true_and]
  constructor
  · rintro ⟨k, measures, mapped, rfl⟩
    refine ⟨k + 1, ?_, mapped, ?_⟩
    · rw [measures_succ]
      exact ⟨c, there, by rw [if_neg nonzero]; exact ⟨k, rfl, measures⟩⟩
    · rw [padded_update m apart there measures.bound, Nat.add_assoc, Nat.add_comm 1 k]
  · rintro ⟨k, measures, mapped, rfl⟩
    rw [measures_succ] at measures
    obtain ⟨found, also, rest⟩ := measures
    rw [there] at also
    cases also
    rw [if_neg nonzero] at rest
    obtain ⟨j, rfl, measures⟩ := rest
    refine ⟨j, measures, mapped, ?_⟩
    rw [padded_update m apart there measures.bound, Nat.add_assoc, Nat.add_comm 1 j]

theorem wcpncpy_iff (n : Nat) : ∀ (m : Memory α) (d s : Nat), Apart d s n →
    ∀ result : Nat × Memory α, wcpncpy m d s n = some result ↔ Copies m d s n result := by
  induction n with
  | zero =>
      intro m d s _ result
      simp only [wcpncpy, Copies, measures_zero, exists_eq_left, filled_zero, memset,
        Option.bind_eq_bind, Option.bind_some, Option.some.injEq]
      exact ⟨fun same => ⟨fun _ none => absurd none (Nat.not_lt_zero _), same.symm⟩,
        fun same => same.2.symm⟩
  | succ n ih =>
      intro m d s apart result
      have rest_apart : Apart (d + 1) (s + 1) n := by
        unfold Apart at apart ⊢
        omega
      simp only [wcpncpy, Option.bind_eq_bind, Option.bind_eq_some_iff]
      constructor
      · rintro ⟨c, there, rest⟩
        split at rest
        next nonzero =>
          obtain ⟨after, stored, looped⟩ := Option.bind_eq_some_iff.mp rest
          obtain ⟨writable, rfl⟩ := (store_iff m after d c).mp stored
          rw [ih _ _ _ rest_apart] at looped
          exact (copies_succ m apart there nonzero writable result).mp looped
        next zero =>
          rw [not_not] at zero
          obtain ⟨after, zeroed, returned⟩ := Option.bind_eq_some_iff.mp rest
          obtain ⟨mapped, rfl⟩ := (memset_iff 0 (n + 1) m after d).mp zeroed
          refine ⟨0, (measures_succ m s n 0).mpr ⟨c, there, by rw [if_pos zero]⟩, mapped, ?_⟩
          exact (Option.some.inj returned).symm
      · rintro ⟨k, measures, mapped, rfl⟩
        obtain ⟨c, there, rest⟩ := (measures_succ m s n k).mp measures
        refine ⟨c, there, ?_⟩
        by_cases zero : c = 0
        · rw [if_pos zero] at rest
          subst rest
          rw [if_neg (not_not.mpr zero)]
          refine Option.bind_eq_some_iff.mpr ⟨_, (memset_iff 0 (n + 1) m _ d).mpr ⟨mapped, rfl⟩, ?_⟩
          rfl
        · rw [if_pos zero]
          have writable := ((mapped_succ m d n).mp mapped).1
          refine Option.bind_eq_some_iff.mpr ⟨_, (store_iff m _ d c).mpr ⟨writable, rfl⟩, ?_⟩
          rw [ih _ _ _ rest_apart, copies_succ m apart there zero writable]
          exact ⟨k, measures, mapped, rfl⟩

/-- The narrow and the wide functions agree on every memory, in what they return, in what they write
and in where they fault: a measure reads as far as the string goes or the bound, and a copy writes
its characters and zeros to the bound, and returns where the zeros begin. -/
theorem stpncpy_wcpncpy (m : Memory α) {dst src n : Nat} (apart : Apart dst src n) :
    strnlen m src n = wcsnlen m src n ∧ stpncpy m dst src n = wcpncpy m dst src n ∧
      ∀ result, stpncpy m dst src n = some result ↔ Copies m dst src n result := by
  refine ⟨?_, ?_, stpncpy_iff m apart⟩
  · apply Option.ext
    intro k
    rw [strnlen_iff, wcsnlen_iff]
  · apply Option.ext
    intro result
    rw [stpncpy_iff m apart, wcpncpy_iff n m dst src apart]

def letter : Memory Nat := fun a => if a = 0 then some 65 else if a < 8 then some 0 else none

theorem stpncpy_wcpncpy_short :
    strnlen letter 0 3 = wcsnlen letter 0 3 ∧ stpncpy letter 4 0 3 = wcpncpy letter 4 0 3 ∧
      ∀ result, stpncpy letter 4 0 3 = some result ↔ Copies letter 4 0 3 result :=
  stpncpy_wcpncpy letter (.inr (by decide))

theorem stpncpyChk_within (m m' : Memory α) {dest src len dstlen result : Nat}
    (apart : Apart dest src len) (copied : stpncpyChk m dest src len dstlen = .copied result m') :
    result ≤ dest + dstlen ∧ ∀ a, a < dest ∨ dest + dstlen ≤ a → m' a = m a := by
  unfold stpncpyChk at copied
  split at copied
  next => cases copied
  next fits =>
    split at copied
    next result memory done =>
      cases copied
      obtain ⟨k, measures, _, same⟩ := (stpncpy_iff m apart _).mp done
      cases same
      have bound := measures.bound
      refine ⟨by omega, fun a outside => ?_⟩
      exact if_neg (by omega)
    next => cases copied

end LegacySupport.BoundedCopies
