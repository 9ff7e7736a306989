import ForgeSync.Proofs.Memory.Variables

/-!
# CI variables one by one

What becomes of a variable that is deleted or written, with or without failures that await the
calls, and what becomes of a table when a list of names or entries is tried. An item that fails
changes nothing, and items of other names neither.

Main statements: `ends_dropVariables` and `ends_writeVariables`.
-/

namespace ForgeSync.Forge.Memory

variable {site : Site} {path name : String} {project : Project} {s t : State} {v : CiVariable}

/-! ## Failures that concern a name -/

/-- The failures that await the calls about one variable. -/
structure VariableFaults where
  delete : Option String := none
  update : Option String := none
  create : Option String := none
  deriving DecidableEq, Repr, Inhabited

namespace VariableFaults

/-- What is reported if the variable is to be deleted. -/
def dropError? (faults : VariableFaults) (name : String) : Option String :=
  faults.delete.map fun message => "delete " ++ name ++ ": " ++ (Failure.provider message).message

/-- What is reported if the variable is to be written. It is created only where it does not exist. -/
def writeError? (faults : VariableFaults) (existed : Bool) (v : CiVariable) : Option String :=
  (faults.update.map fun message =>
    "update " ++ v.key ++ ": " ++ (Failure.provider message).message).or <|
  if existed then none
  else faults.create.map fun message =>
    "create " ++ v.key ++ ": " ++ (Failure.provider message).message

/-- What a name holds in the end. A name that is not managed keeps what it had. One that is not
wanted holds nothing, unless it cannot be deleted. Of the entries for it, the last one that can be
written is there in the end; if there is none, what was there. -/
def valueAfter (faults : VariableFaults) (isManaged : Bool) (entries : List CiVariable)
    (old : Option CiVariable) : Option CiVariable :=
  if !isManaged then old
  else if entries.isEmpty then if faults.delete.isSome then old else none
  else (entries.filter fun v => (faults.writeError? old.isSome v).isNone).getLast?.or old

def dropOutcome (faults : VariableFaults) (existed : Bool) (name : String) : VariableOutcome :=
  match faults.dropError? name with
  | some error => .failed error
  | none => if existed then .deleted else .wasAbsent

def writeOutcome (faults : VariableFaults) (existed : Bool) (v : CiVariable) : VariableOutcome :=
  match faults.writeError? existed v with
  | some error => .failed error
  | none => if existed then .updated else .created

theorem error?_dropOutcome (faults : VariableFaults) (existed : Bool) (name : String) :
    (faults.dropOutcome existed name).error? = faults.dropError? name := by
  unfold dropOutcome
  cases faults.dropError? name with
  | some error => rfl
  | none => cases existed <;> rfl

theorem error?_writeOutcome (faults : VariableFaults) (existed : Bool) (v : CiVariable) :
    (faults.writeOutcome existed v).error? = faults.writeError? existed v := by
  unfold writeOutcome
  cases faults.writeError? existed v with
  | some error => rfl
  | none => cases existed <;> rfl

/-- A variable that could be created can be updated as well, and so can its later entries. -/
theorem writeError?_of_created {faults : VariableFaults} {w : CiVariable}
    (h : faults.writeError? false w = none) (existed : Bool) : faults.writeError? existed v = none := by
  simp only [writeError?, Option.or_eq_none_iff, Option.map_eq_none_iff, Bool.false_eq_true,
    if_false] at h ⊢
  refine ⟨h.1, ?_⟩
  split
  · rfl
  · exact Option.map_eq_none_iff.2 h.2

end VariableFaults

namespace State

/-- The failure that awaits an operation on one name: a failure of its own, or else one of the
operation as a whole. -/
def awaits (s : State) (operation name : String) : Option String :=
  (s.failures[operation ++ ":" ++ name]?).or s.failures[operation]?

def variableFaults (s : State) (name : String) : VariableFaults where
  delete := s.awaits "delete_ci_variable" name
  update := s.awaits "update_ci_variable" name
  create := s.awaits "create_ci_variable" name

/-- What is reported of a settlement, one error for every item that fails. -/
def variableErrors (s : State) (managed : List String) (wanted : List CiVariable)
    (before : Table CiVariable) : List String :=
  ((surplusNames managed wanted).filterMap fun name => (s.variableFaults name).dropError? name) ++
    (managedWanted managed wanted).filterMap fun v =>
      (s.variableFaults v.key).writeError? before[v.key]?.isSome v

theorem variableFaults_congr (h : t.failures = s.failures) :
    t.variableFaults = s.variableFaults := by
  funext name
  simp only [variableFaults, awaits, h]

end State

/-! ## Single variables -/

/-- The table after an attempt to delete a name. -/
def attemptErase (faults : VariableFaults) (vars : Table CiVariable) (name : String) :
    Table CiVariable :=
  if (faults.dropError? name).isNone then eraseName vars name else vars

/-- The table after an attempt to write an entry. -/
def attemptWrite (faults : VariableFaults) (vars : Table CiVariable) (v : CiVariable) :
    Table CiVariable :=
  if (faults.writeError? vars[v.key]?.isSome v).isNone then writeEntry vars v else vars

/-- How one call about the repository ends, with or without a failure that awaits it. -/
theorem becomes_call {call : Call} (h : s.projects[path]? = some project)
    {body : Project → Except Failure (Unit × Project)} :
    (answer call (onProject path body)).Ends s
      (fun _ t => s.failureOf call = none ∧
        ∃ after, body project = .ok ((), after) ∧ Becomes path (some after) 0 s t)
      fun failure t => Becomes path (some project) 0 s t ∧
        ((∃ message, s.failureOf call = some message ∧ failure = .provider message) ∨
          s.failureOf call = none ∧ body project = .error failure) := by
  have hrecorded : Becomes path (some project) 0 s (s.record call) :=
    h ▸ becomes_of_reads (reads_record s call)
  cases hfailure : s.failureOf call with
  | some message => exact (ends_answer_of_some hfailure).2 ⟨hrecorded, .inl ⟨message, rfl, rfl⟩⟩
  | none =>
      refine (ends_answer_of_none hfailure).2 (ends_onProject (s := s.record call) h ?_ ?_)
      · exact fun _ after hbody => ⟨rfl, after, hbody, hrecorded.trans (becomes_put path after _)⟩
      · exact fun failure hbody => ⟨hrecorded, .inr ⟨rfl, hbody⟩⟩

/-- The variables of the repository become a table, and nothing else changes. -/
def Resets (path : String) (project : Project) (vars : Table CiVariable) (s t : State) : Prop :=
  Becomes path (some { project with ciVariables := vars }) 0 s t

theorem Resets.trans {vars later : Table CiVariable} {u : State} (h : Resets path project vars s t)
    (h' : Resets path { project with ciVariables := vars } later t u) :
    Resets path project later s u :=
  Becomes.trans h h'

/-- How a deletion ends. -/
theorem ends_dropVariable (h : s.projects[path]? = some project) (name : String) :
    ((forge site).dropVariable path name).Ends s
      (fun outcome t =>
        outcome = (s.variableFaults name).dropOutcome project.ciVariables[name]?.isSome name ∧
        Resets path project
          (attemptErase (s.variableFaults name) project.ciVariables name) s t)
      fun _ _ => False := by
  have hcall : s.failureOf (.deleteVariable path name) = (s.variableFaults name).delete := rfl
  unfold Forge.dropVariable
  rw [Act.ends_bind, Act.ends_attempt]
  refine (becomes_call h).mono (fun _ t hend => ?_) fun failure t hend => ?_
  · obtain ⟨hnone, after, hbody, hbecomes⟩ := hend
    have herror : (s.variableFaults name).dropError? name = none := by
      simp [VariableFaults.dropError?, ← hcall, hnone]
    split at hbody <;> cases hbody
    rename_i hmem
    simp only [VariableFaults.dropOutcome, attemptErase, herror,
      ← Std.ExtTreeMap.mem_iff_isSome_getElem?, hmem, if_true, Option.isNone_none]
    exact ⟨rfl, hbecomes⟩
  · obtain ⟨hstill, ⟨message, hsome, rfl⟩ | ⟨hnone, hbody⟩⟩ := hend
    · have herror : (s.variableFaults name).dropError? name =
          some ("delete " ++ name ++ ": " ++ (Failure.provider message).message) := by
        simp [VariableFaults.dropError?, ← hcall, hsome]
      simp only [VariableFaults.dropOutcome, attemptErase, herror]
      exact ⟨rfl, hstill⟩
    · have herror : (s.variableFaults name).dropError? name = none := by
        simp [VariableFaults.dropError?, ← hcall, hnone]
      split at hbody <;> cases hbody
      rename_i habsent
      simp only [VariableFaults.dropOutcome, attemptErase, herror,
        ← Std.ExtTreeMap.mem_iff_isSome_getElem?, habsent, if_true, if_false, Option.isNone_none,
        eraseName_of_not_mem habsent]
      exact ⟨rfl, hstill⟩

/-- How a write ends. -/
theorem ends_writeVariable (h : s.projects[path]? = some project) (v : CiVariable) :
    ((forge site).writeVariable path v).Ends s
      (fun outcome t =>
        outcome = (s.variableFaults v.key).writeOutcome project.ciVariables[v.key]?.isSome v ∧
        Resets path project
          (attemptWrite (s.variableFaults v.key) project.ciVariables v) s t)
      fun _ _ => False := by
  have hupdate : ∀ t : State, t.failureOf (.updateVariable path v) =
    (t.variableFaults v.key).update := fun _ => rfl
  have hcreate : ∀ t : State, t.failureOf (.createVariable path v) =
    (t.variableFaults v.key).create := fun _ => rfl
  unfold Forge.writeVariable
  rw [Act.ends_bind, Act.ends_attempt]
  refine (becomes_call h).mono (fun _ t hend => ?_) fun failure t hend => ?_
  · obtain ⟨hnone, after, hbody, hbecomes⟩ := hend
    split at hbody <;> cases hbody
    rename_i hmem
    simp only [VariableFaults.writeOutcome, VariableFaults.writeError?, attemptWrite,
      ← Std.ExtTreeMap.mem_iff_isSome_getElem?, hmem, ← hupdate, hnone]
    exact ⟨rfl, hbecomes⟩
  · obtain ⟨hstill, ⟨message, hsome, rfl⟩ | ⟨hnone, hbody⟩⟩ := hend
    · simp only [VariableFaults.writeOutcome, VariableFaults.writeError?, attemptWrite,
        ← hupdate, hsome]
      exact ⟨rfl, hstill⟩
    · -- the variable does not exist, so it can be created
      split at hbody <;> cases hbody
      rename_i habsent
      have hfaults := congrFun (State.variableFaults_congr hstill.failures) v.key
      dsimp only
      rw [if_pos (by rfl), Act.ends_bind, Act.ends_attempt]
      refine (becomes_call hstill.here).mono (fun _ u hend => ?_) fun failure u hend => ?_
      · obtain ⟨hnone', after, hbody, hbecomes⟩ := hend
        split at hbody <;> cases hbody
        rw [hcreate, hfaults] at hnone'
        simp only [VariableFaults.writeOutcome, VariableFaults.writeError?, attemptWrite,
          ← Std.ExtTreeMap.mem_iff_isSome_getElem?, habsent, ← hupdate, hnone, hnone']
        exact ⟨rfl, hstill.trans hbecomes⟩
      · obtain ⟨hstill', ⟨message, hsome, rfl⟩ | ⟨-, hbody⟩⟩ := hend
        · rw [hcreate, hfaults] at hsome
          simp only [VariableFaults.writeOutcome, VariableFaults.writeError?, attemptWrite,
            ← Std.ExtTreeMap.mem_iff_isSome_getElem?, habsent, ← hupdate, hnone, hsome]
          exact ⟨rfl, hstill.trans hstill'⟩
        · rw [if_neg habsent] at hbody
          cases hbody

/-! ## Deletions -/

theorem resets_refl (h : s.projects[path]? = some project) :
    Resets path project project.ciVariables s s := by
  have hsame : Becomes path s.projects[path]? 0 s s := becomes_of_reads (reads_chains.refl s)
  rwa [h] at hsame

/-- What has become of a table when a list of names was tried. -/
structure Dropped (faults : String → VariableFaults) (before : Table CiVariable)
    (names : List String) (outcomes : List VariableOutcome) (after : Table CiVariable) : Prop where
  value : ∀ name, after[name]? =
    if name ∈ names ∧ ((faults name).dropError? name).isNone then none else before[name]?
  errors : outcomes.filterMap VariableOutcome.error? =
    names.filterMap fun name => (faults name).dropError? name
  deleted : outcomes.count .deleted + after.size = before.size
  others : ∀ outcome ∈ outcomes, outcome ≠ .updated ∧ outcome ≠ .created

theorem Dropped.snoc {faults : String → VariableFaults} {before vars : Table CiVariable}
    {names : List String} {outcomes : List VariableOutcome}
    (h : Dropped faults before names outcomes vars) (name : String) :
    Dropped faults before (names ++ [name])
      (outcomes ++ [(faults name).dropOutcome vars[name]?.isSome name])
      (attemptErase (faults name) vars name) where
  value := by
    intro other
    unfold attemptErase
    by_cases hother : other = name
    · subst hother
      cases hfault : (faults other).dropError? other with
      | some error => simp [h.value, hfault]
      | none => simp [eraseName]
    · have herase : (eraseName vars name)[other]? = vars[other]? := by
        simp [eraseName, Std.ExtTreeMap.getElem?_erase, Ne.symm hother]
      split <;> simp [herase, h.value, hother]
  errors := by
    rw [List.filterMap_append, List.filterMap_append, h.errors, List.filterMap_cons,
      List.filterMap_cons, VariableFaults.error?_dropOutcome]
    rfl
  deleted := by
    rw [← h.deleted, List.count_append, List.count_singleton]
    unfold attemptErase VariableFaults.dropOutcome
    cases (faults name).dropError? name with
    | some error => simp
    | none =>
        rw [← size_eraseName vars name]
        cases vars[name]?.isSome with
        | false => simp
        | true => simp; omega
  others := by
    intro outcome hmem
    rcases List.mem_append.1 hmem with hmem | hmem
    · exact h.others outcome hmem
    · rw [List.mem_singleton.1 hmem, VariableFaults.dropOutcome]
      split
      · simp
      · split <;> simp

variable {faults : String → VariableFaults} {before base after : Table CiVariable}
  {drops writes : List VariableOutcome}

theorem Dropped.getElem?_of_not_mem {names : List String}
    (h : Dropped faults before names drops base) (hname : name ∉ names) :
    base[name]? = before[name]? := by
  rw [h.value, if_neg fun hcase => hname hcase.1]

/-- A deletion only takes names away. -/
theorem Dropped.mem_of_mem {names : List String} (h : Dropped faults before names drops base)
    (hname : name ∈ base) : name ∈ before := by
  rw [Std.ExtTreeMap.mem_iff_isSome_getElem?, h.value] at hname
  split at hname
  · cases hname
  · exact Std.ExtTreeMap.mem_iff_isSome_getElem?.2 hname

/-- All names are tried, whatever became of the others. -/
theorem ends_dropVariables (h : s.projects[path]? = some project) (names : List String) :
    (names.mapM ((forge site).dropVariable path)).Ends s
      (fun outcomes t => ∃ vars, Resets path project vars s t ∧
        Dropped s.variableFaults project.ciVariables names outcomes vars)
      fun _ _ => False := by
  refine Act.ends_mapM (fun done outcomes t => ∃ vars, Resets path project vars s t ∧
    Dropped s.variableFaults project.ciVariables done outcomes vars) ?_
    ⟨_, resets_refl h, by simp, rfl, by simp, by simp⟩
  intro done name rest outcomes t _ hend
  obtain ⟨vars, hresets, hdropped⟩ := hend
  refine (ends_dropVariable hresets.here name).mono (fun outcome u hend => ?_) fun _ _ => id
  obtain ⟨rfl, hmore⟩ := hend
  rw [State.variableFaults_congr hresets.failures] at hmore ⊢
  exact ⟨_, hresets.trans hmore, hdropped.snoc name⟩

/-! ## Writes -/

/-- What has become of a table when a list of entries was tried. -/
structure Written (faults : String → VariableFaults) (before : Table CiVariable)
    (items : List CiVariable) (outcomes : List VariableOutcome) (after : Table CiVariable) :
    Prop where
  value : ∀ name, after[name]? = (items.filter fun v => v.key = name ∧
    ((faults name).writeError? before[name]?.isSome v).isNone).getLast?.or before[name]?
  errors : outcomes.filterMap VariableOutcome.error? =
    items.filterMap fun v => (faults v.key).writeError? before[v.key]?.isSome v
  created : outcomes.count .created + before.size = after.size
  others : outcomes.count .updated + outcomes.count .created +
    (outcomes.filterMap VariableOutcome.error?).length = items.length
  deleted : .deleted ∉ outcomes

/-- Whether an entry can be written does not depend on the entries before it. -/
theorem Written.writeError?_eq {faults : String → VariableFaults} {before vars : Table CiVariable}
    {items : List CiVariable} {outcomes : List VariableOutcome}
    (h : Written faults before items outcomes vars) (v : CiVariable) :
    (faults v.key).writeError? vars[v.key]?.isSome v =
      (faults v.key).writeError? before[v.key]?.isSome v := by
  rw [h.value]
  cases hbefore : before[v.key]? with
  | some old => simp
  | none =>
      rw [Option.or_none, Option.isSome_none]
      cases hlast : (items.filter fun w => w.key = v.key ∧
          ((faults v.key).writeError? false w).isNone).getLast? with
      | none => rfl
      | some w =>
          have hmem := List.mem_of_getLast? hlast
          rw [List.mem_filter, decide_eq_true_iff, Option.isNone_iff_eq_none] at hmem
          rw [VariableFaults.writeError?_of_created hmem.2.2,
            VariableFaults.writeError?_of_created hmem.2.2]

theorem Written.snoc {faults : String → VariableFaults} {before vars : Table CiVariable}
    {items : List CiVariable} {outcomes : List VariableOutcome}
    (h : Written faults before items outcomes vars) (v : CiVariable) :
    Written faults before (items ++ [v])
      (outcomes ++ [(faults v.key).writeOutcome vars[v.key]?.isSome v])
      (attemptWrite (faults v.key) vars v) where
  value := by
    intro name
    unfold attemptWrite
    rw [h.writeError?_eq, List.filter_append]
    by_cases hname : v.key = name
    · subst hname
      cases hfault : (faults v.key).writeError? before[v.key]?.isSome v with
      | some error =>
          rw [List.filter_cons_of_neg (by simp only [hfault]; simp), List.filter_nil,
            List.append_nil]
          exact h.value v.key
      | none =>
          rw [List.filter_cons_of_pos (by simp only [hfault]; simp), List.filter_nil,
            List.getLast?_concat]
          simp [writeEntry]
    · have hwrite : (writeEntry vars v)[name]? = vars[name]? := by
        simp [writeEntry, Std.ExtTreeMap.getElem?_insert, hname]
      rw [List.filter_cons_of_neg (by simp [hname]), List.filter_nil, List.append_nil, ← h.value]
      split
      · exact hwrite
      · rfl
  errors := by
    rw [List.filterMap_append, List.filterMap_append, h.errors, List.filterMap_cons,
      List.filterMap_cons, VariableFaults.error?_writeOutcome, h.writeError?_eq]
    rfl
  created := by
    have hsize := h.created
    rw [List.count_append, List.count_singleton]
    unfold attemptWrite VariableFaults.writeOutcome
    cases (faults v.key).writeError? vars[v.key]?.isSome v with
    | some error => simpa using hsize
    | none =>
        rw [Option.isNone_none, if_pos rfl, size_writeEntry]
        cases vars[v.key]?.isSome <;> simp <;> omega
  others := by
    have hsum := h.others
    rw [List.count_append, List.count_append, List.filterMap_append, List.length_append,
      List.length_append, List.count_singleton, List.count_singleton, List.filterMap_cons,
      List.filterMap_nil, VariableFaults.error?_writeOutcome]
    unfold VariableFaults.writeOutcome
    cases (faults v.key).writeError? vars[v.key]?.isSome v with
    | some error => simp; omega
    | none => cases vars[v.key]?.isSome <;> simp <;> omega
  deleted := by
    rw [List.mem_append, not_or]
    refine ⟨h.deleted, fun hmem => ?_⟩
    have hwrong := List.mem_singleton.1 hmem
    unfold VariableFaults.writeOutcome at hwrong
    split at hwrong
    · cases hwrong
    · split at hwrong <;> cases hwrong

theorem Written.getElem?_of_not_mem {items : List CiVariable}
    (h : Written faults base items writes after) (hname : name ∉ items.map (·.key)) :
    after[name]? = base[name]? := by
  have hnone : (items.filter fun v => v.key = name ∧
      ((faults name).writeError? base[name]?.isSome v).isNone) = [] := by
    refine List.filter_eq_nil_iff.2 fun v hv hcase => ?_
    exact hname (List.mem_map.2 ⟨v, hv, (of_decide_eq_true hcase).1⟩)
  rw [h.value, hnone]
  rfl

/-- A write takes no name away. -/
theorem Written.mem_of_mem {items : List CiVariable}
    (h : Written faults base items writes after) (hname : name ∈ base) : name ∈ after := by
  rw [Std.ExtTreeMap.mem_iff_isSome_getElem?] at hname ⊢
  rw [h.value, Option.isSome_or, hname, Bool.or_true]

/-- All entries are tried, whatever became of the others. -/
theorem ends_writeVariables (h : s.projects[path]? = some project) (items : List CiVariable) :
    (items.mapM ((forge site).writeVariable path)).Ends s
      (fun outcomes t => ∃ vars, Resets path project vars s t ∧
        Written s.variableFaults project.ciVariables items outcomes vars)
      fun _ _ => False := by
  refine Act.ends_mapM (fun done outcomes t => ∃ vars, Resets path project vars s t ∧
    Written s.variableFaults project.ciVariables done outcomes vars) ?_
    ⟨_, resets_refl h, by simp, rfl, by simp, by simp, by simp⟩
  intro done v rest outcomes t _ hend
  obtain ⟨vars, hresets, hwritten⟩ := hend
  refine (ends_writeVariable hresets.here v).mono (fun outcome u hend => ?_) fun _ _ => id
  obtain ⟨rfl, hmore⟩ := hend
  rw [State.variableFaults_congr hresets.failures] at hmore ⊢
  exact ⟨_, hresets.trans hmore, hwritten.snoc v⟩

end ForgeSync.Forge.Memory
