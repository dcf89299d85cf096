import LegacySupport.PackPasses

/-!
`copyfile_xattr` of `copyfile.c`: the extended attributes of the destination are removed, and those
of the source are set on it. The quarantine attribute is passed over, and with it any name that
comes last in a list and is where the quarantine attribute's name begins.
-/

namespace LegacySupport.Copyfile

abbrev Xattrs := AList fun _ : List UInt8 => List UInt8

/-- What the calls answer: the two calls that list the names of a file, and those made for a name.
Where a call fails for a name its `Bool` is `true`. -/
structure XattrSystem where
  malloc : Nat → Bool
  flistxattrDst : Nat → Option Errno
  flistxattrSrc : Nat → Option Errno
  fremovexattr : List UInt8 → Bool
  fgetxattr : Nat → List UInt8 → Bool
  realloc : List UInt8 → Bool
  fsetxattr : List UInt8 → Bool
  qtnXattrName : List UInt8

variable (system : XattrSystem)

/-- The names in a buffer that a loop over it does not pass over. `strncmp` is given the distance
to the last byte of the buffer. -/
def visited : Nat → List UInt8 → List (List UInt8)
  | 0, _ => []
  | fuel + 1, rest =>
      if rest = [] then []
      else
        let name := cstring rest
        let more := visited fuel (rest.drop (name.length + 1))
        if name.take (rest.length - 1) = system.qtnXattrName.take (rest.length - 1) then more
        else name :: more

def terminated (buffer : List UInt8) : List UInt8 := buffer.dropLast ++ [0]

def loopNames (attrs : Xattrs) : List (List UInt8) :=
  let buffer := terminated (nameBytes attrs.keys)
  visited system buffer.length buffer

def removeName (dst : Xattrs) (name : List UInt8) : Xattrs :=
  if system.fremovexattr name then dst else dst.erase name

structure XattrCopy where
  dst : Xattrs
  bufsize : Nat
  /-- The buffer for the data is there, and has not been lost to a `realloc` that failed. -/
  allocated : Bool
  ret : Int

def growBuffer (s : XattrCopy) (name : List UInt8) (xaSize : Nat) : XattrCopy :=
  if s.bufsize < xaSize then { s with bufsize := xaSize, allocated := !system.realloc name } else s

def copyName (src : Xattrs) (s : XattrCopy) (name : List UInt8) : XattrCopy :=
  match src.lookup name with
  | none => { s with ret := -1 }
  | some data =>
      if system.fgetxattr 0 name then { s with ret := -1 }
      else
        let grown := growBuffer system s name data.length
        if s.bufsize < data.length ∧ grown.allocated = false then { grown with ret := -1 }
        else if system.fgetxattr 1 name then { grown with ret := -1 }
        else if system.fsetxattr name ∨ (grown.allocated = false ∧ data ≠ []) then
          { grown with ret := -1 }
        else { grown with dst := grown.dst.insert name data }

def removeXattrs (dst : Xattrs) : Except Int Xattrs :=
  match system.flistxattrDst 0 with
  | some error => .error (if error = enotsup ∨ error = eperm then 0 else -1)
  | none =>
      if dst.keys = [] then .ok dst
      else if system.malloc 0 = false then .error (-1)
      else if (system.flistxattrDst 1).isSome then .ok dst
      else .ok ((loopNames system dst).foldl (removeName system) dst)

def copyXattrs (src dst : Xattrs) : Int × Xattrs :=
  match system.flistxattrSrc 0 with
  | some error => (if error = enotsup ∨ error = eperm then 0 else -1, dst)
  | none =>
      if src.keys = [] then (0, dst)
      else if system.malloc 1 = false then (-1, dst)
      else if (system.flistxattrSrc 1).isSome then (-1, dst)
      else if system.malloc 2 = false then (-1, dst)
      else
        let copied := (loopNames system src).foldl (copyName system src) ⟨dst, 4096, true, 0⟩
        (copied.ret, copied.dst)

def copyfileXattr (src dst : Xattrs) : Int × Xattrs :=
  match removeXattrs system dst with
  | .error ret => (ret, dst)
  | .ok dst => copyXattrs system src dst

/-! ## The names passed over -/

/-- The quarantine attribute, or the last of the names where that one's name begins with it. -/
def Spared (names : List (List UInt8)) (name : List UInt8) : Prop :=
  name = system.qtnXattrName ∨ (names.getLast? = some name ∧ name <+: system.qtnXattrName)

theorem visited_nil (fuel : Nat) : visited system fuel [] = [] := by
  cases fuel with
  | zero => rfl
  | succ fuel => rw [visited, if_pos rfl]

theorem take_eq_take_iff {name other : List UInt8} {n : Nat} (longer : name.length < n) :
    name.take n = other.take n ↔ name = other := by
  rw [List.take_of_length_le longer.le]
  constructor
  · intro same
    have length : name.length = min n other.length := by rw [same, List.length_take]
    rw [same, List.take_of_length_le (by omega)]
  · rintro rfl
    rw [List.take_of_length_le longer.le]

section Names

variable {first : List UInt8} {more : List (List UInt8)}

theorem visited_step (nonzero : ∀ byte ∈ first, byte ≠ 0) (fuel : Nat) :
    visited system (fuel + 1) (nameBytes (first :: more)) =
      let n := first.length + (nameBytes more).length
      if first.take n = system.qtnXattrName.take n then visited system fuel (nameBytes more)
      else first :: visited system fuel (nameBytes more) := by
  have front := nameBytes_cons first more []
  rw [List.append_nil, List.append_nil] at front
  have size : (nameBytes (first :: more)).length - 1 = first.length + (nameBytes more).length := by
    rw [length_nameBytes_cons, namelen]
    omega
  have nonempty : nameBytes (first :: more) ≠ [] := by
    rw [front]
    simp
  have string : cstring (nameBytes (first :: more)) = first := by
    rw [front]
    exact cstring_append first _ nonzero
  have behind : (nameBytes (first :: more)).drop (first.length + 1) = nameBytes more := by
    rw [front]
    exact drop_name first _
  rw [visited, if_neg nonempty]
  dsimp only
  rw [string, behind, size]

theorem visited_last (nonzero : ∀ byte ∈ first, byte ≠ 0) (fuel : Nat) :
    visited system (fuel + 1) (nameBytes [first]) =
      if first <+: system.qtnXattrName then [] else [first] := by
  rw [visited_step system nonzero]
  have none : nameBytes [] = [] := rfl
  dsimp only
  rw [none, visited_nil, List.length_nil, Nat.add_zero, List.take_length]
  simp only [← List.prefix_iff_eq_take]

theorem visited_cons (nonzero : ∀ byte ∈ first, byte ≠ 0) (others : more ≠ []) (fuel : Nat) :
    visited system (fuel + 1) (nameBytes (first :: more)) =
      if first = system.qtnXattrName then visited system fuel (nameBytes more)
      else first :: visited system fuel (nameBytes more) := by
  have positive : 0 < (nameBytes more).length := by
    obtain ⟨second, rest, rfl⟩ := List.exists_cons_of_ne_nil others
    rw [length_nameBytes_cons, namelen]
    omega
  rw [visited_step system nonzero]
  simp only [take_eq_take_iff
    (show first.length < first.length + (nameBytes more).length by omega)]

end Names

theorem mem_visited {names : List (List UInt8)} (named : Named names) (distinct : names.Nodup) :
    ∀ fuel, (nameBytes names).length ≤ fuel → ∀ name,
      name ∈ visited system fuel (nameBytes names) ↔ name ∈ names ∧ ¬ Spared system names name := by
  induction names with
  | nil =>
      intro fuel _ name
      rw [nameBytes, List.flatMap_nil, visited_nil]
      simp only [List.not_mem_nil, false_and]
  | cons first more ih =>
      intro fuel enough name
      have nonzero := (named first List.mem_cons_self).2
      rw [length_nameBytes_cons, namelen] at enough
      obtain ⟨fuel, rfl⟩ : ∃ rest, fuel = rest + 1 := ⟨fuel - 1, by omega⟩
      rcases eq_or_ne more [] with rfl | others
      · rw [visited_last system nonzero]
        simp only [Spared, List.mem_singleton, List.getLast?_singleton, Option.some_inj]
        split
        next begins =>
          simp only [List.not_mem_nil, false_iff, not_and, not_not]
          rintro rfl
          exact Or.inr ⟨rfl, begins⟩
        next differs =>
          rw [List.mem_singleton]
          refine ⟨?_, And.left⟩
          rintro rfl
          refine ⟨rfl, ?_⟩
          rintro (same | ⟨-, begins⟩)
          · exact differs (same ▸ List.prefix_refl _)
          · exact differs begins
      · have rest := ih named.tail (List.nodup_cons.mp distinct).2 fuel (by omega) name
        have last : (first :: more).getLast? = more.getLast? := List.getLast?_cons_of_ne_nil others
        have spared : Spared system (first :: more) name ↔ Spared system more name := by
          rw [Spared, Spared, last]
        rw [visited_cons system nonzero others, spared, List.mem_cons]
        split
        next quarantine =>
          rw [rest]
          constructor
          · rintro ⟨member, ordinary⟩
            exact ⟨Or.inr member, ordinary⟩
          · rintro ⟨rfl | member, ordinary⟩
            · exact absurd (Or.inl quarantine) ordinary
            · exact ⟨member, ordinary⟩
        next other =>
          rw [List.mem_cons, rest]
          constructor
          · rintro (rfl | ⟨member, ordinary⟩)
            · refine ⟨Or.inl rfl, ?_⟩
              rintro (same | ⟨ended, -⟩)
              · exact other same
              · exact (List.nodup_cons.mp distinct).1 (List.mem_of_getLast? ended)
            · exact ⟨Or.inr member, ordinary⟩
          · rintro ⟨rfl | member, ordinary⟩
            · exact Or.inl rfl
            · exact Or.inr ⟨member, ordinary⟩

theorem terminated_nameBytes {names : List (List UInt8)} (some_name : names ≠ []) :
    terminated (nameBytes names) = nameBytes names := by
  obtain ⟨front, last, rfl⟩ := (List.eq_nil_or_concat' names).resolve_left some_name
  rw [terminated, nameBytes, List.flatMap_append, List.flatMap_singleton, ← List.append_assoc,
    List.dropLast_concat]

theorem mem_loopNames {attrs : Xattrs} (named : Named attrs.keys) (some_name : attrs.keys ≠ [])
    (name : List UInt8) :
    name ∈ loopNames system attrs ↔ name ∈ attrs.keys ∧ ¬ Spared system attrs.keys name := by
  rw [loopNames, terminated_nameBytes some_name]
  exact mem_visited system named attrs.keys_nodup _ (Nat.le_refl _) name

/-! ## The two loops -/

theorem lookup_removeName (dst : Xattrs) (first name : List UInt8) :
    (removeName system dst first).lookup name =
      if name = first ∧ system.fremovexattr name = false then none else dst.lookup name := by
  unfold removeName
  rcases eq_or_ne name first with rfl | other
  · cases system.fremovexattr name <;> simp
  · rw [if_neg (show ¬ (name = first ∧ _) from fun both => other both.1)]
    split
    next => rfl
    next => exact AList.lookup_erase_ne other

theorem lookup_removed (names : List (List UInt8)) (name : List UInt8) : ∀ dst : Xattrs,
    (names.foldl (removeName system) dst).lookup name =
      if name ∈ names ∧ system.fremovexattr name = false then none else dst.lookup name := by
  induction names with
  | nil =>
      intro dst
      simp
  | cons first rest ih =>
      intro dst
      rw [List.foldl_cons, ih, lookup_removeName]
      by_cases removed : system.fremovexattr name = false
      · by_cases again : name ∈ rest
        · simp [again, removed]
        · simp [List.mem_cons, again, removed]
      · simp [removed]

theorem growBuffer_dst (s : XattrCopy) (name : List UInt8) (xaSize : Nat) :
    (growBuffer system s name xaSize).dst = s.dst ∧
      (growBuffer system s name xaSize).ret = s.ret := by
  unfold growBuffer
  split
  · exact ⟨rfl, rfl⟩
  · exact ⟨rfl, rfl⟩

theorem copyName_cases (src : Xattrs) (s : XattrCopy) (name : List UInt8) :
    ((copyName system src s name).ret = -1 ∧ (copyName system src s name).dst = s.dst) ∨
      ∃ data, src.lookup name = some data ∧ (copyName system src s name).ret = s.ret ∧
        (copyName system src s name).dst = s.dst.insert name data := by
  unfold copyName
  split
  next => exact Or.inl ⟨rfl, rfl⟩
  next data found =>
    obtain ⟨dst, ret⟩ := growBuffer_dst system s name data.length
    split
    next => exact Or.inl ⟨rfl, rfl⟩
    next =>
      dsimp only
      split
      next => exact Or.inl ⟨rfl, dst⟩
      next =>
        split
        next => exact Or.inl ⟨rfl, dst⟩
        next =>
          split
          next => exact Or.inl ⟨rfl, dst⟩
          next => exact Or.inr ⟨data, found, ret, by rw [dst]⟩

structure LoopEnd (src : Xattrs) (names : List (List UInt8)) (before after : XattrCopy) : Prop where
  other : ∀ name, name ∉ names → after.dst.lookup name = before.dst.lookup name
  listed : ∀ name ∈ names, after.dst.lookup name = src.lookup name ∨
    (after.ret = -1 ∧ after.dst.lookup name = before.dst.lookup name)
  ret : after.ret = before.ret ∨ after.ret = -1

theorem copyNames_loopEnd (src : Xattrs) (names : List (List UInt8)) : ∀ s : XattrCopy,
    LoopEnd src names s (names.foldl (copyName system src) s) := by
  induction names with
  | nil =>
      intro s
      exact ⟨fun _ _ => rfl, fun name member => absurd member List.not_mem_nil, Or.inl rfl⟩
  | cons first rest ih =>
      intro s
      have later := ih (copyName system src s first)
      rw [List.foldl_cons]
      rcases copyName_cases system src s first with ⟨failed, kept⟩ | ⟨data, found, ret, copied⟩
      · have stays : (rest.foldl (copyName system src) (copyName system src s first)).ret = -1 := by
          rcases later.ret with same | same
          · exact same.trans failed
          · exact same
        refine ⟨?_, ?_, Or.inr stays⟩
        · intro name out
          rw [later.other name fun member => out (List.mem_cons_of_mem _ member), kept]
        · intro name member
          by_cases again : name ∈ rest
          · rcases later.listed name again with same | ⟨-, same⟩
            · exact Or.inl same
            · exact Or.inr ⟨stays, same.trans (by rw [kept])⟩
          · exact Or.inr ⟨stays, (later.other name again).trans (by rw [kept])⟩
      · have others : ∀ name, name ≠ first →
            (copyName system src s first).dst.lookup name = s.dst.lookup name := by
          intro name differs
          rw [copied, AList.lookup_insert_ne differs]
        have set : (copyName system src s first).dst.lookup first = src.lookup first := by
          rw [copied, AList.lookup_insert, found]
        refine ⟨?_, ?_, ?_⟩
        · intro name out
          rw [List.mem_cons, not_or] at out
          rw [later.other name out.2, others name out.1]
        · intro name member
          by_cases again : name ∈ rest
          · rcases later.listed name again with same | ⟨fails, same⟩
            · exact Or.inl same
            · rcases eq_or_ne name first with rfl | differs
              · exact Or.inl (same.trans set)
              · exact Or.inr ⟨fails, same.trans (others name differs)⟩
          · have head : name = first := (List.mem_cons.mp member).resolve_right again
            subst head
            exact Or.inl ((later.other name again).trans set)
        · rcases later.ret with same | same
          · exact Or.inl (same.trans ret)
          · exact Or.inr same

structure XattrsQuiet : Prop where
  fgetxattr : ∀ made name, system.fgetxattr made name = false
  realloc : ∀ name, system.realloc name = false
  fsetxattr : ∀ name, system.fsetxattr name = false

theorem copyNames_quiet (quiet : XattrsQuiet system) (src : Xattrs) (names : List (List UInt8))
    (there : ∀ name ∈ names, name ∈ src) : ∀ s : XattrCopy, s.allocated = true →
      (names.foldl (copyName system src) s).ret = s.ret := by
  induction names with
  | nil =>
      intro s _
      rfl
  | cons first rest ih =>
      intro s allocated
      obtain ⟨data, found⟩ := Option.isSome_iff_exists.mp
        (AList.lookup_isSome.mpr (there first List.mem_cons_self))
      have step : (copyName system src s first).allocated = true ∧
          (copyName system src s first).ret = s.ret := by
        have grown : (growBuffer system s first data.length).allocated = true := by
          unfold growBuffer
          rw [quiet.realloc]
          split
          · rfl
          · exact allocated
        unfold copyName
        rw [found]
        dsimp only
        rw [quiet.fgetxattr, quiet.fgetxattr, quiet.fsetxattr, grown]
        simp [(growBuffer_dst system s first data.length).2]
      rw [List.foldl_cons,
        ih (fun name member => there name (List.mem_cons_of_mem _ member)) _ step.1,
        step.2]

/-! ## The function -/

structure XattrsListed : Prop where
  malloc : ∀ made, system.malloc made = true
  flistxattrDst : ∀ made, system.flistxattrDst made = none
  flistxattrSrc : ∀ made, system.flistxattrSrc made = none

def Leftover (dst : Xattrs) (name : List UInt8) (data : Option (List UInt8)) : Prop :=
  (Spared system dst.keys name ∨ system.fremovexattr name = true → data = dst.lookup name) ∧
    (¬ Spared system dst.keys name → system.fremovexattr name = false → data = none)

theorem removeXattrs_leftover (listed : XattrsListed system) {dst : Xattrs}
    (named : Named dst.keys) :
    ∃ left, removeXattrs system dst = .ok left ∧
      ∀ name, Leftover system dst name (left.lookup name) := by
  unfold removeXattrs
  rw [listed.flistxattrDst, listed.malloc, listed.flistxattrDst]
  rcases eq_or_ne dst.keys [] with none | names
  · refine ⟨dst, by simp [none], fun name => ⟨fun _ => rfl, fun _ _ => ?_⟩⟩
    rw [AList.lookup_eq_none, AList.mem_keys, none]
    exact List.not_mem_nil
  · refine ⟨_, by simp [names]; rfl, fun name => ?_⟩
    have members := mem_loopNames system named names name
    rw [lookup_removed]
    split
    next removed =>
      have ordinary := (members.mp removed.1).2
      refine ⟨fun kept => ?_, fun _ _ => rfl⟩
      rcases kept with spared | refused
      · exact absurd spared ordinary
      · rw [refused] at removed
        cases removed.2
    next kept =>
      refine ⟨fun _ => rfl, fun ordinary removes => ?_⟩
      rw [AList.lookup_eq_none, AList.mem_keys]
      exact fun member => kept ⟨members.mpr ⟨member, ordinary⟩, removes⟩

theorem copyXattrs_loopEnd (listed : XattrsListed system) {src : Xattrs} (named : Named src.keys)
    (dst : Xattrs) :
    ∃ names after, copyXattrs system src dst = (after.ret, after.dst) ∧
      (∀ name, name ∈ names ↔ name ∈ src.keys ∧ ¬ Spared system src.keys name) ∧
      LoopEnd src names ⟨dst, 4096, true, 0⟩ after ∧ (XattrsQuiet system → after.ret = 0) := by
  unfold copyXattrs
  rw [listed.flistxattrSrc, listed.malloc, listed.malloc, listed.flistxattrSrc]
  rcases eq_or_ne src.keys [] with none | names
  · refine ⟨[], ⟨dst, 4096, true, 0⟩, by simp [none], ?_, copyNames_loopEnd system src [] _, ?_⟩
    · intro name
      rw [none]
      simp
    · exact fun _ => rfl
  · have members := mem_loopNames system named names
    refine ⟨loopNames system src, _, by simp [names], members,
      copyNames_loopEnd system src _ ⟨dst, 4096, true, 0⟩, fun quiet => ?_⟩
    exact copyNames_quiet system quiet src _
      (fun name member => AList.mem_keys.mpr ((members name).mp member).1) _ rfl

/-- Of the attributes of the source those that are not passed over are copied, which is reported
where it fails for one of them. Of those of the destination only what is passed over there, or
could not be removed, is left. -/
theorem copyfileXattr_copies (listed : XattrsListed system) {src dst : Xattrs}
    (srcNamed : Named src.keys) (dstNamed : Named dst.keys) :
    ∃ ret after, copyfileXattr system src dst = (ret, after) ∧
      (ret = 0 ∨ ret = -1) ∧ (XattrsQuiet system → ret = 0) ∧
      (∀ name, name ∈ src → ¬ Spared system src.keys name →
        after.lookup name = src.lookup name ∨
          (ret = -1 ∧ Leftover system dst name (after.lookup name))) ∧
      ∀ name, name ∉ src ∨ Spared system src.keys name →
        Leftover system dst name (after.lookup name) := by
  obtain ⟨left, removed, kept⟩ := removeXattrs_leftover system listed dstNamed
  obtain ⟨names, after, copied, members, ends, quiet⟩ :=
    copyXattrs_loopEnd system listed srcNamed left
  have ran : copyfileXattr system src dst = (after.ret, after.dst) := by
    rw [copyfileXattr, removed]
    exact copied
  refine ⟨after.ret, after.dst, ran, ends.ret, quiet, ?_, ?_⟩
  · intro name there ordinary
    rcases ends.listed name ((members name).mpr ⟨AList.mem_keys.mp there, ordinary⟩)
      with same | fails
    · exact Or.inl same
    · exact Or.inr ⟨fails.1, fails.2 ▸ kept name⟩
  · intro name out
    have unlisted : name ∉ names := by
      rw [members]
      rintro ⟨member, ordinary⟩
      rcases out with missing | spared
      · exact missing (AList.mem_keys.mpr member)
      · exact ordinary spared
    rw [ends.other name unlisted]
    exact kept name

def lenientSystem : XattrSystem where
  malloc _ := true
  flistxattrDst _ := none
  flistxattrSrc _ := none
  fremovexattr _ := false
  fgetxattr _ _ := false
  realloc _ := false
  fsetxattr _ := false
  qtnXattrName := [99, 111, 109]

def userAttribute : Xattrs := AList.singleton [117] [1]
def comAttribute : Xattrs := AList.singleton [99] [2]

theorem copyfileXattr_copies_user :
    ∃ ret after, copyfileXattr lenientSystem userAttribute comAttribute = (ret, after) ∧ ret = 0 ∧
      after.lookup [117] = some [1] ∧ after.lookup [99] = some [2] := by
  have listed : XattrsListed lenientSystem := ⟨fun _ => rfl, fun _ => rfl, fun _ => rfl⟩
  have quiet : XattrsQuiet lenientSystem := ⟨fun _ _ => rfl, fun _ => rfl, fun _ => rfl⟩
  have srcNamed : Named userAttribute.keys := by
    simp [Named, userAttribute, namelen, xattrMaxnamelen]
  have dstNamed : Named comAttribute.keys := by
    simp [Named, comAttribute, namelen, xattrMaxnamelen]
  obtain ⟨ret, after, ran, -, succeeds, copied, left⟩ :=
    copyfileXattr_copies lenientSystem listed srcNamed dstNamed
  refine ⟨ret, after, ran, succeeds quiet, ?_, ?_⟩
  · have ordinary : ¬ Spared lenientSystem userAttribute.keys [117] := by
      unfold Spared
      decide
    rcases copied [117] (by decide) ordinary with same | ⟨failed, -⟩
    · exact same
    · rw [succeeds quiet] at failed
      cases failed
  · refine (left [99] (Or.inl (by decide))).1 (Or.inl ?_)
    unfold Spared
    decide

end LegacySupport.Copyfile
