import LegacySupport.CopyDataCore

/-!
What `copyfile_data` leaves in the destination, whatever the system and the callback answer, and
that its loops end.
-/

namespace LegacySupport.Copyfile

open FileBytes

structure Delivered (before after : Copying) (bytes : List UInt8) : Prop where
  dst : after.dst = overwrite 0 before.dst before.offset bytes
  offset : after.offset = before.offset + bytes.length
  totalCopied : after.totalCopied = before.totalCopied + bytes.length

structure SameData (before after : Copying) : Prop where
  source : after.source = before.source
  dst : after.dst = before.dst
  offset : after.offset = before.offset
  totalCopied : after.totalCopied = before.totalCopied

theorem SameData.delivered {before after : Copying} (same : SameData before after) :
    Delivered before after [] where
  dst := same.dst.trans (overwrite_nil 0 before.dst before.offset).symm
  offset := same.offset
  totalCopied := same.totalCopied

theorem Delivered.trans {before between after : Copying} {first second : List UInt8}
    (one : Delivered before between first) (two : Delivered between after second) :
    Delivered before after (first ++ second) where
  dst := by rw [two.dst, one.dst, one.offset, overwrite_append]
  offset := by rw [two.offset, one.offset, List.length_append, Nat.add_assoc]
  totalCopied := by rw [two.totalCopied, one.totalCopied, List.length_append, Nat.add_assoc]

variable {system : DataSystem}

/-- The last write has failed, and the callback, which has been asked last, has answered that the
data are to be skipped. -/
def Skipped (system : DataSystem) (after : Copying) : Prop :=
  ∃ status writes calls error, system.status = some status ∧
    after.writes = writes + 1 ∧ after.calls = calls + 1 ∧
    system.write writes = .failed error ∧ (status copyfileErr calls error).1 = copyfileSkip

/-! ## Writing a buffer -/

structure BufferEnd (system : DataSystem) (left : List UInt8) (before after : Copying)
    (flow : Option Int) : Prop where
  delivered : ∃ bytes, bytes <+: left ∧ Delivered before after bytes ∧ (flow = none → bytes = left)
  source : after.source = before.source
  ret : ∀ ret, flow = some ret → ret = -1 ∨ (ret = 0 ∧ Skipped system after)

theorem BufferEnd.stopped {left : List UInt8} {before after : Copying}
    (same : SameData before after) {ret : Int} (ends : ret = -1 ∨ (ret = 0 ∧ Skipped system after)) :
    BufferEnd system left before after (some ret) where
  delivered := ⟨[], List.nil_prefix, same.delivered, fun more => by cases more⟩
  source := same.source
  ret other same := by
    cases same
    exact ends

theorem BufferEnd.advance {left : List UInt8} {before between after : Copying}
    {flow : Option Int} (n : Nat) (delivered : Delivered before between (left.take n))
    (source : between.source = before.source)
    (rest : BufferEnd system (left.drop n) between after flow) :
    BufferEnd system left before after flow where
  delivered := by
    obtain ⟨bytes, within, more, whole⟩ := rest.delivered
    refine ⟨left.take n ++ bytes, ?_, delivered.trans more, fun ended => ?_⟩
    · have joined := (List.prefix_append_right_inj (left.take n)).mpr within
      rwa [List.take_append_drop] at joined
    · rw [whole ended, List.take_append_drop]
  source := rest.source.trans source
  ret := rest.ret

theorem writeLoop_ends_with (oBlocksize fuel : Nat) : ∀ left loop s flow after,
    writeLoop system oBlocksize fuel left loop s = some (flow, after) →
      BufferEnd system left s after flow := by
  induction fuel with
  | zero =>
      intro left loop s flow after ran
      cases ran
  | succ fuel ih =>
      intro left loop s flow after ran
      rw [writeLoop] at ran
      split at ran
      next empty =>
        cases ran
        subst empty
        exact ⟨⟨[], List.nil_prefix, SameData.delivered ⟨rfl, rfl, rfl, rfl⟩, fun _ => rfl⟩, rfl,
          fun ret more => by cases more⟩
      next some =>
        dsimp only at ran
        split at ran
        next error refused =>
          split at ran
          next none =>
            cases ran
            exact .stopped (by constructor <;> rfl) (Or.inl rfl)
          next status given =>
            split at ran
            next skip =>
              cases ran
              exact .stopped (by constructor <;> rfl) (Or.inr ⟨rfl, status, s.writes, s.calls,
                error, given, rfl, rfl, refused, skip⟩)
            next other =>
              split at ran
              next again =>
                obtain ⟨delivered, source, ret⟩ := ih _ _ _ _ _ ran
                obtain ⟨bytes, within, more, whole⟩ := delivered
                exact ⟨⟨bytes, within, ⟨more.dst, more.offset, more.totalCopied⟩, whole⟩,
                  source, ret⟩
              next stop =>
                cases ran
                exact .stopped (by constructor <;> rfl) (Or.inl rfl)
        next n taken =>
          split at ran
          next stuck =>
            cases ran
            exact .stopped (by constructor <;> rfl) (Or.inl rfl)
          next =>
            generalize counted : min n (min left.length oBlocksize) = nwritten at ran
            have length : (left.take nwritten).length = nwritten := by
              rw [List.length_take]
              omega
            split at ran
            next none =>
              refine .advance nwritten ?_ ?_ (ih _ _ _ _ _ ran)
              · exact ⟨rfl, by rw [length], by rw [length]⟩
              · rfl
            next status given =>
              split at ran
              next quit =>
                cases ran
                refine ⟨⟨left.take nwritten, List.take_prefix _ _, ?_, fun more => by cases more⟩,
                  rfl, fun ret more => ?_⟩
                · exact ⟨rfl, by rw [length], by rw [length]⟩
                · cases more
                  exact Or.inl rfl
              next onward =>
                refine .advance nwritten ?_ ?_ (ih _ _ _ _ _ ran)
                · exact ⟨rfl, by rw [length], by rw [length]⟩
                · rfl

/-! ## The whole function -/

/-- How the function ends: with the whole of what it could read and the size set, with the data
skipped at a write that failed, or with a failure, whose error number the state holds. -/
inductive CopyEnd (system : DataSystem) (sb : SourceStat) (readable : List UInt8)
    (before after : Copying) : Int → Prop
  | copied (dst : after.dst = resize 0 (overwrite 0 before.dst before.offset readable) sb.size)
      (totalCopied : after.totalCopied = before.totalCopied + readable.length) :
      CopyEnd system sb readable before after 0
  | skipped (bytes : List UInt8) (within : bytes <+: readable)
      (delivered : Delivered before after bytes) (skipped : Skipped system after) :
      CopyEnd system sb readable before after 0
  | failed (bytes : List UInt8) (within : bytes <+: readable)
      (delivered : Delivered before after bytes) (err : after.err = after.errno) :
      CopyEnd system sb readable before after (-1)

variable {sb : SourceStat}

theorem CopyEnd.advance {first rest : List UInt8} {before between after : Copying} {ret : Int}
    (delivered : Delivered before between first)
    (ends : CopyEnd system sb rest between after ret) :
    CopyEnd system sb (first ++ rest) before after ret := by
  cases ends with
  | copied dst totalCopied =>
      refine .copied ?_ ?_
      · rw [dst, delivered.dst, delivered.offset, overwrite_append]
      · rw [totalCopied, delivered.totalCopied, List.length_append, Nat.add_assoc]
  | skipped bytes within more skipped =>
      exact .skipped (first ++ bytes) ((List.prefix_append_right_inj first).mpr within)
        (delivered.trans more) skipped
  | failed bytes within more err =>
      exact .failed (first ++ bytes) ((List.prefix_append_right_inj first).mpr within)
        (delivered.trans more) err

theorem Delivered.exit {before after : Copying} {bytes : List UInt8}
    (delivered : Delivered before after bytes) (errno : Errno) :
    Delivered before { after with err := errno } bytes :=
  ⟨delivered.dst, delivered.offset, delivered.totalCopied⟩

theorem readLoop_ends_with (blen oBlocksize fuel : Nat) : ∀ s ret after,
    readLoop system sb blen oBlocksize fuel s = some (ret, after) →
      CopyEnd system sb (if blen = 0 then [] else s.source) s after ret := by
  induction fuel with
  | zero =>
      intro s ret after ran
      cases ran
  | succ fuel ih =>
      intro s ret after ran
      rw [readLoop] at ran
      dsimp only at ran
      split at ran
      next error refused =>
        cases ran
        exact .failed [] List.nil_prefix (.exit (SameData.delivered (by constructor <;> rfl)) _) rfl
      next n given =>
        generalize counted : min (max n 1) (min blen s.source.length) = nread at ran
        split at ran
        next none =>
          have empty : (if blen = 0 then [] else s.source) = [] := by
            split
            · rfl
            · exact List.eq_nil_of_length_eq_zero (by omega)
          split at ran
          next error refused =>
            cases ran
            exact .failed [] List.nil_prefix (.exit (SameData.delivered (by constructor <;> rfl)) _)
              rfl
          next truncated =>
            cases ran
            rw [empty]
            refine .copied ?_ rfl
            rw [overwrite_nil]
            rfl
        next some =>
          have block : blen ≠ 0 := by omega
          have parts := List.take_append_drop nread s.source
          rw [if_neg block]
          split at ran
          next => cases ran
          next stop between written =>
            obtain ⟨delivered, -, ret⟩ := writeLoop_ends_with _ _ _ _ _ _ _ written
            obtain ⟨bytes, within, ⟨dst, offset, totalCopied⟩, -⟩ := delivered
            have inside := within.trans (List.take_prefix nread s.source)
            have delivered : Delivered s between bytes := ⟨dst, offset, totalCopied⟩
            rcases ret _ rfl with rfl | ⟨rfl, skip⟩
            · cases ran
              exact .failed bytes inside (delivered.exit _) rfl
            · cases ran
              exact .skipped bytes inside delivered skip
          next between written =>
            obtain ⟨delivered, source, -⟩ := writeLoop_ends_with _ _ _ _ _ _ _ written
            obtain ⟨bytes, within, ⟨dst, offset, totalCopied⟩, whole⟩ := delivered
            have rest := ih between ret after ran
            rw [if_neg block, source] at rest
            dsimp only at rest
            rw [← parts]
            refine rest.advance ?_
            rw [← whole rfl]
            exact ⟨dst, offset, totalCopied⟩

def readable (system : DataSystem) (sb : SourceStat) (s : Copying) : List UInt8 :=
  if iBlocksize system sb = 0 then [] else s.source

theorem copyfileData_copies {fuel : Nat} {s after : Copying} {ret : Int}
    (regular : sb.mode &&& sIfmt = sIfreg) (allocated : system.malloc (iBlocksize system sb) = true)
    (ran : copyfileData system sb fuel s = some (ret, after)) :
    CopyEnd system sb (readable system sb s) { s with totalCopied := 0 } after ret := by
  have enough : ¬ system.malloc (iBlocksize system sb) = false := by rw [allocated]; decide
  rw [copyfileData, if_neg (not_not.mpr regular), if_neg enough] at ran
  exact readLoop_ends_with _ _ _ _ _ _ ran

/-! ## The loops end -/

def Retries (system : DataSystem) (writes calls : Nat) : Prop :=
  ∃ status error, system.status = some status ∧ system.write writes = .failed error ∧
    (status copyfileErr calls error).1 = copyfileContinue

/-- From some write on, one after the other fails and is tried again. -/
def Endless (system : DataSystem) : Prop :=
  ∃ writes calls, ∀ k, Retries system (writes + k) (calls + k)

def Ends {Result : Type} (loop : Nat → Option Result) : Prop :=
  ∃ enough result, ∀ fuel, enough ≤ fuel → loop fuel = some result

theorem Ends.now {Result : Type} {loop : Nat → Option Result} {result : Result}
    (ends : ∀ fuel, loop (fuel + 1) = some result) : Ends loop := by
  refine ⟨1, result, fun fuel enough => ?_⟩
  obtain ⟨less, rfl⟩ := Nat.exists_eq_add_of_le' enough
  exact ends less

theorem Ends.later {Result : Type} {loop next : Nat → Option Result}
    (step : ∀ fuel, loop (fuel + 1) = next fuel) (ends : Ends next) : Ends loop := by
  obtain ⟨enough, result, ends⟩ := ends
  refine ⟨enough + 1, result, fun fuel more => ?_⟩
  obtain ⟨less, rfl⟩ := Nat.exists_eq_add_of_le' (Nat.le_of_add_left_le more)
  rw [step]
  exact ends less (Nat.le_of_succ_le_succ more)

inductive BufferStep (system : DataSystem) (oBlocksize : Nat) (left : List UInt8) (loop : Nat)
    (s : Copying) : Prop
  | ends (result : Option Int × Copying)
      (round : ∀ fuel, writeLoop system oBlocksize (fuel + 1) left loop s = some result)
  | again (next : Copying) (retries : Retries system s.writes s.calls)
      (writes : next.writes = s.writes + 1) (calls : next.calls = s.calls + 1)
      (round : ∀ fuel, writeLoop system oBlocksize (fuel + 1) left loop s =
        writeLoop system oBlocksize fuel left loop next)
  | onward (rest : List UInt8) (count : Nat) (next : Copying) (low : count ≤ 5)
      (less : 6 * rest.length + (6 - count) < 6 * left.length + (6 - loop))
      (round : ∀ fuel, writeLoop system oBlocksize (fuel + 1) left loop s =
        writeLoop system oBlocksize fuel rest count next)

theorem writeLoop_step (system : DataSystem) (oBlocksize : Nat) (left : List UInt8) {loop : Nat}
    (s : Copying) (low : loop ≤ 5) : BufferStep system oBlocksize left loop s := by
  by_cases empty : left = []
  · exact .ends _ fun fuel => by rw [writeLoop, if_pos empty]
  cases answered : system.write s.writes with
  | failed error =>
      cases given : system.status with
      | none => exact .ends _ fun fuel => by rw [writeLoop, if_neg empty, answered, given]
      | some status =>
          by_cases skip : (status copyfileErr s.calls error).1 = copyfileSkip
          · exact .ends _ fun fuel => by
              rw [writeLoop, if_neg empty, answered, given]
              dsimp only
              rw [if_pos skip]
          by_cases again : (status copyfileErr s.calls error).1 = copyfileContinue
          · exact .again
              { s with
                writes := s.writes + 1
                calls := s.calls + 1
                errno := 0 }
              ⟨status, error, given, answered, again⟩ rfl rfl fun fuel => by
                rw [writeLoop, if_neg empty, answered, given]
                dsimp only
                rw [if_neg skip, if_pos again]
          · exact .ends _ fun fuel => by
              rw [writeLoop, if_neg empty, answered, given]
              dsimp only
              rw [if_neg skip, if_neg again]
  | count n =>
      by_cases stuck : min n (min left.length oBlocksize) = 0 ∧ 5 < loop + 1
      · exact .ends _ fun fuel => by
          rw [writeLoop, if_neg empty, answered]
          dsimp only
          rw [if_pos stuck]
      generalize counted : min n (min left.length oBlocksize) = nwritten at stuck
      have shorter : (left.drop nwritten).length = left.length - nwritten := List.length_drop
      have low' : (if nwritten = 0 then loop + 1 else 0) ≤ 5 := by split <;> omega
      have less : 6 * (left.drop nwritten).length + (6 - if nwritten = 0 then loop + 1 else 0) <
          6 * left.length + (6 - loop) := by
        split <;> omega
      cases given : system.status with
      | none =>
          exact .onward _ _ _ low' less fun fuel => by
            rw [writeLoop, if_neg empty, answered, given]
            dsimp only
            rw [counted, if_neg stuck]
      | some status =>
          by_cases quit : (status copyfileProgress s.calls s.errno).1 = copyfileQuit
          · exact .ends _ fun fuel => by
              rw [writeLoop, if_neg empty, answered, given]
              dsimp only
              rw [counted, if_neg stuck, if_pos quit]
          · exact .onward _ _ _ low' less fun fuel => by
              rw [writeLoop, if_neg empty, answered, given]
              dsimp only
              rw [counted, if_neg stuck, if_neg quit]

theorem writeLoop_ends (patient : ¬ Endless system) (oBlocksize : Nat) (left : List UInt8)
    (loop : Nat) (s : Copying) (low : loop ≤ 5) :
    Ends fun fuel => writeLoop system oBlocksize fuel left loop s := by
  induction measured : 6 * left.length + (6 - loop) using Nat.strong_induction_on
    generalizing left loop s with
  | _ measure shorter =>
      -- the tries that fail from here on are not all tried again
      obtain ⟨k, given⟩ : ∃ k, ¬ Retries system (s.writes + k) (s.calls + k) := by
        by_contra all
        exact patient ⟨s.writes, s.calls, fun k => by_contra fun ends => all ⟨k, ends⟩⟩
      induction k generalizing s with
      | zero =>
          cases writeLoop_step system oBlocksize left s low with
          | ends result round => exact .now round
          | again next retries => exact absurd retries given
          | onward rest count next low less round =>
              exact .later round (shorter _ (measured ▸ less) rest count next low rfl)
      | succ k ih =>
          cases writeLoop_step system oBlocksize left s low with
          | ends result round => exact .now round
          | again next retries writes calls round =>
              refine .later round (ih next ?_)
              rwa [writes, calls, Nat.add_assoc, Nat.add_assoc, Nat.add_comm 1]
          | onward rest count next low less round =>
              exact .later round (shorter _ (measured ▸ less) rest count next low rfl)

theorem readLoop_ends (patient : ¬ Endless system) (sb : SourceStat) (blen oBlocksize : Nat)
    (s : Copying) : Ends fun fuel => readLoop system sb blen oBlocksize fuel s := by
  induction measured : s.source.length using Nat.strong_induction_on generalizing s with
  | _ length shorter =>
      cases answered : system.read s.reads with
      | failed error => exact .now fun fuel => by rw [readLoop, answered]
      | count n =>
          by_cases none : min (max n 1) (min blen s.source.length) = 0
          · cases truncated : system.ftruncate with
            | some error =>
                exact .now fun fuel => by
                  rw [readLoop, answered]
                  dsimp only
                  rw [if_pos none, truncated]
            | none =>
                exact .now fun fuel => by
                  rw [readLoop, answered]
                  dsimp only
                  rw [if_pos none, truncated]
          generalize counted : min (max n 1) (min blen s.source.length) = nread at none
          obtain ⟨enough, ⟨flow, between⟩, written⟩ := writeLoop_ends patient oBlocksize
            (s.source.take nread) 0
            { s with
              reads := s.reads + 1
              source := s.source.drop nread } (Nat.zero_le 5)
          beta_reduce at written
          have source := (writeLoop_ends_with _ _ _ _ _ _ _ (written enough (Nat.le_refl _))).source
          cases flow with
          | some ret =>
              refine ⟨enough + 1, copyfileDataExit ret between, fun fuel more => ?_⟩
              obtain ⟨less, rfl⟩ := Nat.exists_eq_add_of_le' (Nat.le_of_add_left_le more)
              beta_reduce
              rw [readLoop, answered]
              dsimp only
              rw [counted, if_neg none, written less (Nat.le_of_succ_le_succ more)]
          | none =>
              obtain ⟨later, ends, rest⟩ := shorter between.source.length
                (by rw [source, List.length_drop]; omega) between rfl
              refine ⟨max enough later + 1, ends, fun fuel more => ?_⟩
              obtain ⟨less, rfl⟩ := Nat.exists_eq_add_of_le' (Nat.le_of_add_left_le more)
              have both := max_le_iff.mp (Nat.le_of_succ_le_succ more)
              beta_reduce
              rw [readLoop, answered]
              dsimp only
              rw [counted, if_neg none, written less both.1]
              exact rest less both.2

theorem copyfileData_ends (patient : ¬ Endless system) (sb : SourceStat) (s : Copying) :
    Ends fun fuel => copyfileData system sb fuel s := by
  unfold copyfileData
  split
  next => exact ⟨0, _, fun fuel _ => rfl⟩
  next =>
    split
    next => exact ⟨0, _, fun fuel _ => rfl⟩
    next => exact readLoop_ends patient sb _ _ { s with totalCopied := 0 }

/-- Whatever the calls answer, the loops end unless failing writes are tried again for ever, and a
regular file is copied as a whole, or as far as one of its prefixes, which without a callback is
reported. The error number of a failure is `errno`, also where the callback has asked to stop. -/
theorem copyfileData_delivers (patient : ¬ Endless system) (regular : sb.mode &&& sIfmt = sIfreg)
    (allocated : system.malloc (iBlocksize system sb) = true) (s : Copying) :
    ∃ enough ret after,
      (∀ fuel, enough ≤ fuel → copyfileData system sb fuel s = some (ret, after)) ∧
      CopyEnd system sb (readable system sb s) { s with totalCopied := 0 } after ret := by
  obtain ⟨enough, ⟨ret, after⟩, ends⟩ := copyfileData_ends patient sb s
  exact ⟨enough, ret, after, ends,
    copyfileData_copies regular allocated (ends enough (Nat.le_refl _))⟩

def fullDisk : DataSystem where
  malloc _ := true
  srcIosize := some 2
  dstIosize := some 4096
  read _ := .count 4096
  write made := if made < 2 then .count 1 else .failed 28
  status := some fun stage calls errno =>
    if stage = copyfileErr ∧ 2 < calls then (copyfileSkip, errno) else (copyfileContinue, errno)
  ftruncate := none

def threeBytes : Copying := ⟨[1, 2, 3], [9], 0, 0, 0, 0, 0, 0, 0⟩

theorem copyfileData_delivers_fullDisk :
    (∃ enough ret after,
      (∀ fuel, enough ≤ fuel →
        copyfileData fullDisk ⟨sIfreg, 3, 512⟩ fuel threeBytes = some (ret, after)) ∧
      CopyEnd fullDisk ⟨sIfreg, 3, 512⟩ (readable fullDisk ⟨sIfreg, 3, 512⟩ threeBytes)
        { threeBytes with totalCopied := 0 } after ret) ∧
    (copyfileData fullDisk ⟨sIfreg, 3, 512⟩ 26 threeBytes).map (fun ends => (ends.1, ends.2.dst)) =
      some (0, [1, 2]) := by
  have patient : ¬ Endless fullDisk := by
    rintro ⟨writes, calls, all⟩
    obtain ⟨status, error, given, -, continues⟩ := all 3
    cases given
    have late : copyfileErr = copyfileErr ∧ 2 < calls + 3 := ⟨rfl, by omega⟩
    dsimp only at continues
    rw [if_pos late] at continues
    cases continues
  exact ⟨@copyfileData_delivers fullDisk ⟨sIfreg, 3, 512⟩ patient (by decide) rfl threeBytes,
    by decide⟩

/-! ## A system that takes everything -/

structure Quiet (system : DataSystem) : Prop where
  malloc : ∀ count, system.malloc count = true
  srcIosize : ∀ size, system.srcIosize = some size → 0 < size
  read : ∀ made error, system.read made ≠ .failed error
  write : ∀ made, ∃ n, 0 < n ∧ system.write made = .count n
  status : system.status = none
  ftruncate : system.ftruncate = none

theorem writeLoop_quiet (quiet : Quiet system) {oBlocksize : Nat} (block : 0 < oBlocksize)
    (fuel : Nat) : ∀ left s, left.length < fuel →
      ∃ after, writeLoop system oBlocksize fuel left 0 s = some (none, after) := by
  induction fuel with
  | zero =>
      intro left s enough
      omega
  | succ fuel ih =>
      intro left s enough
      obtain ⟨n, positive, taken⟩ := quiet.write s.writes
      rw [writeLoop, taken, quiet.status]
      dsimp only
      split
      next empty => exact ⟨s, rfl⟩
      next nonempty =>
        have length := List.length_pos_of_ne_nil nonempty
        have moved : ¬ min n (min left.length oBlocksize) = 0 := by omega
        rw [if_neg fun stuck => moved stuck.1, if_neg moved]
        exact ih _ _ (by rw [List.length_drop]; omega)

theorem readLoop_quiet (quiet : Quiet system) {blen oBlocksize : Nat} (blenPositive : 0 < blen)
    (block : 0 < oBlocksize) (fuel : Nat) : ∀ s, 2 * s.source.length + 2 ≤ fuel →
      ∃ after, readLoop system sb blen oBlocksize fuel s = some (0, after) ∧
        after.source = [] ∧ after.offset = s.offset + s.source.length := by
  induction fuel with
  | zero =>
      intro s enough
      omega
  | succ fuel ih =>
      intro s enough
      rw [readLoop]
      dsimp only
      split
      next error refused => exact absurd refused (quiet.read s.reads error)
      next n given =>
        generalize counted : min (max n 1) (min blen s.source.length) = nread
        split
        next none =>
          have empty : s.source = [] := List.eq_nil_of_length_eq_zero (by omega)
          rw [quiet.ftruncate]
          exact ⟨_, rfl, empty, by rw [empty]; rfl⟩
        next some =>
          obtain ⟨between, written⟩ := writeLoop_quiet quiet block fuel (s.source.take nread)
            { s with
              reads := s.reads + 1
              source := s.source.drop nread } (by rw [List.length_take]; omega)
          obtain ⟨delivered, source, -⟩ := writeLoop_ends_with _ _ _ _ _ _ _ written
          obtain ⟨bytes, -, more, whole⟩ := delivered
          obtain ⟨after, ran, drained, offset⟩ :=
            ih between (by rw [source, List.length_drop]; omega)
          rw [written]
          refine ⟨after, ran, drained, ?_⟩
          have advanced := more.offset
          rw [offset, advanced, whole rfl, source]
          simp only [List.length_take, List.length_drop]
          omega

theorem copyfileData_quiet (quiet : Quiet system) (regular : sb.mode &&& sIfmt = sIfreg)
    (block : 0 < sb.blksize) {fuel : Nat} (s : Copying) (enough : 2 * s.source.length + 2 ≤ fuel) :
    ∃ after, copyfileData system sb fuel s = some (0, after) ∧
      after.dst = resize 0 (overwrite 0 s.dst s.offset s.source) sb.size ∧
      after.source = [] ∧ after.offset = s.offset + s.source.length := by
  have blocks : 0 < iBlocksize system sb := by
    unfold iBlocksize onegig
    cases given : system.srcIosize with
    | none =>
        rw [Option.getD_none]
        omega
    | some size =>
        have positive := quiet.srcIosize size given
        rw [Option.getD_some]
        omega
  have outBlocks : 0 < oBlocksize system sb := by
    unfold oBlocksize
    split
    · exact blocks
    · exact blocks
    next iosize nonzero given =>
      unfold onegig
      have positive : iosize ≠ 0 := fun zero => nonzero (by rw [zero])
      omega
  have memory : ¬ system.malloc (iBlocksize system sb) = false := by
    rw [quiet.malloc]
    decide
  obtain ⟨after, loops, drained, offset⟩ :=
    @readLoop_quiet system sb quiet _ _ blocks outBlocks fuel { s with totalCopied := 0 } enough
  have ran : copyfileData system sb fuel s = some (0, after) := by
    rw [copyfileData, if_neg (not_not.mpr regular), if_neg memory]
    exact loops
  refine ⟨after, ran, ?_, drained, offset⟩
  have whole : readable system sb s = s.source := if_neg (by omega)
  have ends := copyfileData_copies regular (quiet.malloc _) ran
  rw [whole] at ends
  cases ends with
  | copied dst => exact dst
  | skipped _ _ _ skip =>
      obtain ⟨status, _, _, _, given, -⟩ := skip
      rw [quiet.status] at given
      cases given

end LegacySupport.Copyfile
