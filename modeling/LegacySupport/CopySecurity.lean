import LegacySupport.CopySecurityCore

/-!
The permissions of a destination over a run of calls of `copyfile`: how many temporary entries its
access control list is left with, and what else it is left with.
-/

namespace LegacySupport.CopySecurity

variable (user : User)

/-- The permissions of a file, with its temporary entries counted. -/
structure Ledger where
  entries : Nat
  acl : Option Acl
  mode : UInt32

def Ledger.file (type : UInt32) (ledger : Ledger) : Filesec where
  type := type
  mode := ledger.mode
  acl := ledger.acl.map (List.replicate ledger.entries (uberace user) ++ ·)

def Call.succeeds (call : Call) : Bool := call.opens && call.attributes && call.data

def Call.loses (call : Call) : Bool :=
  call.opens && call.attributes && !call.data && call.unlinks

def dropTemporary : Acl → Acl
  | [] => []
  | ace :: rest => if isUberace user ace then rest else ace :: rest

def merge (dst src : Option Acl) : Option Acl :=
  if dst = none ∧ src = none then none
  else
    let acl := (dst.getD []).filter Ace.inherited ++ (src.getD []).filter (!·.inherited)
    some (if dst.isSome ∧ user.uid = user.euid then acl else dropTemporary user acl)

/-- What a call does: one that fails leaves the entry that it has made, and one that succeeds takes
it away where the user is the one that the process has the rights of. -/
def Ledger.step (ledger : Ledger) (call : Call) : Option Ledger :=
  if call.loses then none
  else if call.succeeds = false then
    some { ledger with
      entries := ledger.entries + 1
      mode := if call.chmods then call.src.mode ||| sIwusr else writable ledger.mode }
  else
    some
      { entries :=
          if call.acl then 0
          else if user.uid = user.euid then ledger.entries else ledger.entries + 1
        acl := if call.acl then merge user ledger.acl call.src.acl else ledger.acl
        mode := if call.stat then call.src.mode else ledger.mode }

theorem uberace_inherited : (uberace user).inherited = false := by
  have flags : ((0 : UInt32) &&& aclEntryInherited != 0) = false := by decide
  exact flags

theorem isUberace_uberace : isUberace user (uberace user) = decide (user.uid = user.euid) := by
  unfold isUberace uberace
  by_cases same : user.uid = user.euid
  · simp [same]
  · simp [same]

theorem filter_inherited_replicate (count : Nat) (acl : Acl) :
    (List.replicate count (uberace user) ++ acl).filter Ace.inherited =
      acl.filter Ace.inherited := by
  rw [List.filter_append, List.filter_replicate, uberace_inherited]
  rfl

theorem keptEntries_uberace (acl : Acl) :
    keptEntries user (uberace user :: acl) =
      if user.uid = user.euid then (true, uberace user :: acl.filter Ace.inherited)
      else (false, acl.filter Ace.inherited) := by
  rw [keptEntries, isUberace_uberace]
  by_cases same : user.uid = user.euid
  · simp only [same, decide_true, if_true]
  · simp only [same, decide_false, Bool.false_eq_true, if_false]
    rw [List.filter_cons_of_neg]
    rw [uberace_inherited]
    decide

variable {user} {call : Call} {type : UInt32}

theorem fixPerms_file (ledger : Ledger) :
    copyfileFixPerms user (ledger.file user type) =
      ({ ledger with entries := ledger.entries + 1, mode := writable ledger.mode }).file user
        type := by
  unfold copyfileFixPerms Ledger.file
  cases ledger.acl with
  | none => rfl
  | some acl => rfl

/-- A call that is not one for a directory of a tree, and may change the permissions. -/
structure Plain (call : Call) : Prop where
  nofollowDst : call.nofollowDst = false
  delayAce : call.delayAce = false
  fixes : call.fixes = true
  resets : call.resets = true

theorem removeUberace_acl (plain : Plain call) (mode : UInt32) (acl : Option Acl) :
    removeUberace user call mode ⟨type, mode, acl⟩ =
      ⟨type, mode, acl.map (dropTemporary user)⟩ := by
  unfold removeUberace
  rw [plain.resets]
  cases acl with
  | none => rfl
  | some acl =>
      cases acl with
      | nil => rfl
      | cons ace rest =>
          dsimp only [Option.map_some, dropTemporary]
          split
          · rfl
          · rfl

theorem dropTemporary_mergedAcl (user : User) (plain : Plain call) (entries : Nat)
    (dst : Option Acl) :
    ((mergedAcl user call
        (dst.map (List.replicate (entries + 1) (uberace user) ++ ·))).or
      (dst.map (List.replicate (entries + 1) (uberace user) ++ ·))).map (dropTemporary user) =
      (merge user dst call.src.acl) := by
  unfold mergedAcl merge
  rw [plain.delayAce]
  cases dst with
  | none =>
      cases call.src.acl with
      | none => rfl
      | some src => simp
  | some acl =>
      rw [Option.map_some, List.replicate_succ, List.cons_append]
      simp only [keptEntries_uberace, filter_inherited_replicate]
      by_cases same : user.uid = user.euid
      · cases call.src.acl with
        | none => simp [same, dropTemporary, isUberace_uberace]
        | some src => simp [same, dropTemporary, isUberace_uberace]
      · cases call.src.acl with
        | none => simp [same]
        | some src => simp [same]

theorem copyfileInternal_mode (mode before : UInt32) (acl : Option Acl) :
    (if call.stat then copyfileInternal user call ⟨type, mode, acl⟩
      else { copyfileInternal user call ⟨type, mode, acl⟩ with mode := before }) =
      ⟨type, if call.stat then call.src.mode else before,
        if call.acl then (mergedAcl user call acl).or acl else acl⟩ := by
  unfold copyfileInternal copyfileSecurity copyfileStat
  cases call.stat <;> cases call.acl <;> rfl

theorem resetSecurity_acl (plain : Plain call) (before : UInt32) (acl : Option Acl) :
    resetSecurity user call ⟨type, if call.stat then call.src.mode else before, acl⟩ =
      ⟨type, if call.stat then call.src.mode else before, acl.map (dropTemporary user)⟩ := by
  unfold resetSecurity
  rw [plain.delayAce, if_neg (by decide)]
  cases call.stat with
  | true => exact removeUberace_acl plain call.src.mode acl
  | false => exact removeUberace_acl plain before acl

theorem dropTemporary_kept (entries : Nat) (acl : Option Acl) :
    (acl.map (List.replicate (entries + 1) (uberace user) ++ ·)).map (dropTemporary user) =
      acl.map (List.replicate (if user.uid = user.euid then entries else entries + 1)
        (uberace user) ++ ·) := by
  cases acl with
  | none => rfl
  | some acl =>
      rw [Option.map_some, Option.map_some, Option.map_some, List.replicate_succ, List.cons_append,
        dropTemporary, isUberace_uberace]
      by_cases same : user.uid = user.euid
      · simp only [same, decide_true, if_true]
      · simp only [same, decide_false, Bool.false_eq_true, if_false]
        rw [List.replicate_succ, List.cons_append]

theorem copied_file (plain : Plain call) (ledger : Ledger) (mode : UInt32) :
    resetSecurity user call
      (if call.stat then copyfileInternal user call
          (({ ledger with entries := ledger.entries + 1, mode := mode }).file user type)
        else { copyfileInternal user call
          (({ ledger with entries := ledger.entries + 1, mode := mode }).file user type) with
            mode := ledger.mode }) =
      Ledger.file user type
        { entries :=
            if call.acl then 0
            else if user.uid = user.euid then ledger.entries else ledger.entries + 1
          acl := if call.acl then merge user ledger.acl call.src.acl else ledger.acl
          mode := if call.stat then call.src.mode else ledger.mode } := by
  unfold Ledger.file
  dsimp only
  rw [copyfileInternal_mode, resetSecurity_acl plain]
  cases call.acl with
  | true =>
      have merged := dropTemporary_mergedAcl user plain ledger.entries ledger.acl
      simp only [if_true, merged]
      cases merge user ledger.acl call.src.acl <;> rfl
  | false => simp only [Bool.false_eq_true, if_false, dropTemporary_kept]

theorem copyfile_file (user : User) (type : UInt32) (plain : Plain call) (ledger : Ledger) :
    (copyfile user call (ledger.file user type)).2 =
      (ledger.step user call).map (Ledger.file user type) := by
  have fixed : ¬ ((call.nofollowDst = true ∧ (ledger.file user type).type &&& sIflnk ≠ 0) ∨
      call.fixes = false) := by
    rw [plain.nofollowDst, plain.fixes]
    simp
  have opened : ∃ mode, mode = (if call.chmods then call.src.mode ||| sIwusr
        else writable ledger.mode) ∧
      (if call.chmods then
        { copyfileFixPerms user (ledger.file user type) with mode := call.src.mode ||| sIwusr }
      else copyfileFixPerms user (ledger.file user type)) =
        ({ ledger with entries := ledger.entries + 1, mode := mode }).file user type := by
    refine ⟨_, rfl, ?_⟩
    rw [fixPerms_file]
    cases call.chmods <;> rfl
  obtain ⟨mode, same, opened⟩ := opened
  unfold copyfile Ledger.step Call.loses Call.succeeds
  dsimp only
  rw [if_neg fixed, opened, ← same]
  cases call.opens with
  | false => rfl
  | true =>
      cases call.attributes with
      | false => rfl
      | true =>
          cases call.data with
          | false => cases call.unlinks <;> rfl
          | true => exact congrArg some (copied_file plain ledger mode)

/-! ## Runs of calls -/

def Ledger.after (user : User) (ledger : Option Ledger) (call : Call) : Option Ledger :=
  ledger.bind (Ledger.step user · call)

theorem file_run (user : User) (type : UInt32) {calls : List Call}
    (plain : ∀ call ∈ calls, Plain call) : ∀ ledger : Option Ledger,
    calls.foldl (Filesec.step user) (ledger.map (Ledger.file user type)) =
      (calls.foldl (Ledger.after user) ledger).map (Ledger.file user type) := by
  induction calls with
  | nil =>
      intro ledger
      rfl
  | cons call rest ih =>
      intro ledger
      have one : Filesec.step user (ledger.map (Ledger.file user type)) call =
          (Ledger.after user ledger call).map (Ledger.file user type) := by
        cases ledger with
        | none => rfl
        | some ledger => exact copyfile_file user type (plain call List.mem_cons_self) ledger
      rw [List.foldl_cons, List.foldl_cons, one]
      exact ih (fun other member => plain other (List.mem_cons_of_mem _ member)) _

def Filesec.ledger (dst : Filesec) : Ledger := ⟨0, dst.acl, dst.mode⟩

theorem ledger_file (dst : Filesec) : dst.ledger.file user dst.type = dst := by
  unfold Filesec.ledger Ledger.file
  cases dst with
  | mk type mode acl =>
      cases acl with
      | none => rfl
      | some acl => rfl

def someone : User := ⟨501, 501⟩

def aclCall (opens : Bool) : Call where
  stat := false
  acl := true
  nofollowDst := false
  delayAce := false
  src := ⟨0o100000, 0o644, some [⟨true, 502, 2, 0⟩]⟩
  fixes := true
  chmods := false
  opens := opens
  attributes := true
  data := true
  unlinks := true
  applies := true
  resets := true

def readOnly : Filesec := ⟨0o100000, 0o444, some [⟨true, 503, 2, aclEntryInherited⟩]⟩

theorem writable_writable (mode : UInt32) : writable (writable mode) = writable mode := by
  have set : (mode ||| (sIwusr ||| sIrusr)) &&& (sIwusr ||| sIrusr) = sIwusr ||| sIrusr := by
    apply UInt32.toBitVec_inj.mp
    simp only [UInt32.toBitVec_and, UInt32.toBitVec_or]
    generalize sIwusr.toBitVec ||| sIrusr.toBitVec = bits
    ext i bound
    simpa using fun set => Or.inr set
  have again : writable (mode ||| (sIwusr ||| sIrusr)) = mode ||| (sIwusr ||| sIrusr) :=
    if_neg (not_not.mpr set)
  by_cases same : mode &&& (sIwusr ||| sIrusr) = sIwusr ||| sIrusr
  · have kept : writable mode = mode := if_neg (not_not.mpr same)
    rw [kept, kept]
  · have changed : writable mode = mode ||| (sIwusr ||| sIrusr) := if_pos same
    rw [changed, again]

def leaving (user : User) (calls : List Call) : Nat :=
  if user.uid = user.euid then calls.countP (!·.succeeds) else calls.length

theorem leaving_cons (user : User) (call : Call) (rest : List Call) :
    leaving user (call :: rest) =
      leaving user rest + if call.succeeds ∧ user.uid = user.euid then 0 else 1 := by
  unfold leaving
  by_cases same : user.uid = user.euid
  · rw [if_pos same, if_pos same, List.countP_cons]
    cases call.succeeds <;> simp [same]
  · rw [if_neg same, if_neg same, List.length_cons, if_neg fun both => same both.2]

structure DataOnly (call : Call) : Prop where
  acl : call.acl = false
  stat : call.stat = false
  chmods : call.chmods = false

theorem ledger_step (data : DataOnly call) (kept : call.loses = false) (ledger : Ledger) :
    ledger.step user call =
      some ⟨ledger.entries + if call.succeeds ∧ user.uid = user.euid then 0 else 1, ledger.acl,
        if call.succeeds then ledger.mode else writable ledger.mode⟩ := by
  unfold Ledger.step
  rw [kept, data.acl, data.stat, data.chmods]
  cases call.succeeds with
  | false => simp
  | true =>
      by_cases same : user.uid = user.euid
      · simp [same]
      · simp [same]

theorem ledger_run_none (calls : List Call) : calls.foldl (Ledger.after user) none = none := by
  induction calls with
  | nil => rfl
  | cons call rest ih => exact ih

theorem ledger_run {calls : List Call} (data : ∀ call ∈ calls, DataOnly call) :
    ∀ ledger : Ledger, calls.foldl (Ledger.after user) (some ledger) =
      if calls.any Call.loses then none
      else some ⟨ledger.entries + leaving user calls, ledger.acl,
        if calls.all Call.succeeds then ledger.mode else writable ledger.mode⟩ := by
  induction calls with
  | nil =>
      intro ledger
      simp [leaving]
  | cons call rest ih =>
      intro ledger
      rw [List.foldl_cons, List.any_cons]
      cases lost : call.loses with
      | true =>
          have gone : Ledger.after user (some ledger) call = none := by
            rw [Ledger.after, Option.bind_some, Ledger.step, if_pos lost]
          rw [gone, ledger_run_none, Bool.true_or, if_pos rfl]
      | false =>
          rw [Ledger.after, Option.bind_some, ledger_step (data call List.mem_cons_self) lost,
            ih fun other member => data other (List.mem_cons_of_mem _ member), leaving_cons,
            List.all_cons, Bool.false_or]
          dsimp only
          congr 3
          · omega
          · cases call.succeeds with
            | true => simp
            | false =>
                simp only [Bool.false_and, Bool.false_eq_true, if_false, writable_writable,
                  ite_self]

def dataCall (opens : Bool) : Call := { aclCall opens with acl := false }

end LegacySupport.CopySecurity
