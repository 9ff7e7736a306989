import ForgeSync.Proofs.Pass.NewRepository
import ForgeSync.Proofs.Pass.Turns

/-!
# Variables that a template has dropped

A pass deletes a variable only under a name that the status remembers, and names are remembered at
the end of a pass that succeeds, while variables are created one by one before that. So a variable
that a failed pass has created and that the template drops before any pass has succeeded belongs to
nobody, and stays.

Main statements: `dropped_variable_stays_iff` and `left_behind_after_failure`.
-/

namespace ForgeSync

open Calendar (Instant)
open Forge.Memory

/-! ## Names that are remembered -/

variable {repo : Descriptor} {previous : Option AppliedVariables} {key : String}

/-- A pass that succeeds remembers the names that its template lists. -/
theorem mem_namesOf_appliedAim :
    key ∈ namesOf (appliedAim repo previous) ↔ key ∈ repo.ciVariables.map (·.key) := by
  obtain hsame | ⟨hnone, hempty⟩ := appliedAim_cases repo previous
  · rw [hsame]
    exact Descriptor.mem_names_trace
  · rw [hnone, ← Descriptor.mem_names_trace, List.isEmpty_iff.1 hempty]
    rfl

/-- Of the variables that a template does not list, a pass that succeeds drops exactly those whose
names are remembered. -/
theorem mem_variablesAim_of_unlisted (h : key ∉ repo.ciVariables.map (·.key))
    {vars : Table CiVariable} :
    key ∈ variablesAim repo previous vars ↔ key ∈ vars ∧ key ∉ namesOf previous := by
  have htrace : key ∉ repo.trace.names := fun hmem => h (Descriptor.mem_names_trace.1 hmem)
  unfold variablesAim
  split
  · rename_i hsame
    simp [namesOf, hsame, htrace]
  have hmanaged : key ∈ managedNames previous repo.trace ↔ key ∈ namesOf previous := by
    rw [mem_managedNames, or_iff_left htrace, namesOf]
  have hunlisted : repo.ciVariables.reverse.find? (·.key = key) = none :=
    find?_reverse_eq_none.2 h
  rw [Std.ExtTreeMap.mem_iff_isSome_getElem?, getElem?_settled, hunlisted,
    Std.ExtTreeMap.mem_iff_isSome_getElem?]
  by_cases hremembered : key ∈ namesOf previous <;> simp [hmanaged, hremembered]

namespace Reconciler

/-! ## Runs over a living object -/

/-- The world after a user has put a new list of variables into the template of an object. -/
def relist (o : Owner) (wanted : List CiVariable) : World State → World State :=
  World.amend o.metadata.space o.metadata.name fun spec =>
    { spec with gitTemplate := spec.gitTemplate.map fun d => { d with ciVariables := wanted } }

/-- The names that the template of a stored object lists. -/
def listedNames (objectKey : String) (v : World State) : List String :=
  (v.store.objects[objectKey]?.bind (·.spec.gitTemplate)).elim [] fun declared =>
    declared.ciVariables.map (·.key)

/-- The names that the status of a stored object remembers. -/
def recordedNames (objectKey : String) (v : World State) : List String :=
  namesOf (v.store.objects[objectKey]?.bind (·.status.lastAppliedCiVariables))

/-- The repository at a path has a variable of a name. -/
def HasVariable (path key : String) (v : World State) : Prop :=
  ∃ project, v.backend.projects[path]? = some project ∧ key ∈ project.ciVariables

theorem hasVariable_iff_mem {path key : String} {v : World State} :
    HasVariable path key v ↔ key ∈ (v.backend.variables path).getD ∅ := by
  unfold HasVariable State.variables
  cases v.backend.projects[path]? <;> simp

instance (path key : String) (v : World State) : Decidable (HasVariable path key v) :=
  decidable_of_iff _ hasVariable_iff_mem.symm

/-- The world stores a living version of an object, with a template for the repository at a path. -/
structure Keeping (o : Owner) (path : String) (v : World State) (stored : Owner)
    (declared : Descriptor) : Prop where
  faults : v.faults = {}
  found : v.store.objects[o.key]? = some stored
  key : stored.key = o.key
  living : stored.isDeleting = false
  template : stored.spec.gitTemplate = some declared
  path : declared.fullPath = path

variable {r : Reconciler State} {site : Site} {o stored : Owner} {path : String}
  {v : World State} {declared : Descriptor}

/-- The world after a turn, a pass or a new list of variables. -/
abbrev listTurn (r : Reconciler State) (o : Owner) (v : World State)
    (turn : Turn (List CiVariable)) : World State :=
  r.afterTurn o.metadata.space o.metadata.name (relist o) v turn

/-- The world after a run of such turns. -/
abbrev listRun (r : Reconciler State) (o : Owner) (v : World State)
    (turns : List (Turn (List CiVariable))) : World State :=
  r.runTurns o.metadata.space o.metadata.name (relist o) v turns

theorem Keeping.listed_eq (h : Keeping o path v stored declared) :
    listedNames o.key v = declared.ciVariables.map (·.key) := by
  simp [listedNames, h.found, h.template]

theorem Keeping.recorded_eq (h : Keeping o path v stored declared) :
    recordedNames o.key v = namesOf stored.status.lastAppliedCiVariables := by
  simp [recordedNames, h.found]

theorem Keeping.fetched (h : Keeping o path v stored declared) (failures : Table String) :
    Fetched stored (v.withFailures failures) :=
  ⟨(congrArg (v.store.objects[·]?) h.key).trans h.found, h.faults⟩

theorem Keeping.ok (h : Keeping o path v stored declared)
    (hserves : r.registry.Serves (forge site)) (failures : Table String) {outcome : Outcome}
    (hok : (r.reconcile stored (v.withFailures failures)).1 = .ok outcome) :
    ∃ next declared', Keeping o path (r.reconcile stored (v.withFailures failures)).2.world
        next declared' ∧
      next.status.lastAppliedCiVariables =
        appliedAim declared stored.status.lastAppliedCiVariables := by
  have hfetched := h.fetched failures
  obtain ⟨next, hnext, happlied⟩ := stored_of_ok hserves hfetched h.living h.template hok
  obtain ⟨hkin, hliving⟩ := kin_of_stored hfetched hnext
  have hspec := spec_of_ok hfetched h.template hok hnext
  refine ⟨next, completedTemplate stored r.settings.defaultDeletionPolicy
    r.settings.defaultCreationPolicy declared, ⟨?_, ?_, ?_, hliving.trans h.living, ?_, h.path⟩,
    happlied⟩
  · exact (along_reconcile r stored (v.withFailures failures)).faults.trans h.faults
  · rw [← h.key]
    exact hnext
  · rw [hkin.key, h.key]
  · rw [hspec]
    rfl

theorem Keeping.error (h : Keeping o path v stored declared) (failures : Table String)
    {failure : StepFailure}
    (herror : (r.reconcile stored (v.withFailures failures)).1 = .error failure) :
    ∃ next, Keeping o path (r.reconcile stored (v.withFailures failures)).2.world next declared ∧
      next.status.lastAppliedCiVariables = stored.status.lastAppliedCiVariables := by
  obtain ⟨phase, version, hnext⟩ := stored_of_error (h.fetched failures) herror
  refine ⟨(stored.withPhase phase).withVersion version,
    ⟨?_, ?_, h.key, h.living, h.template, h.path⟩, rfl⟩
  · exact (along_reconcile r stored (v.withFailures failures)).faults.trans h.faults
  · rw [← h.key]
    exact hnext

theorem Keeping.change (h : Keeping o path v stored declared) (wanted : List CiVariable) :
    ∃ next declared', Keeping o path (relist o wanted v) next declared' ∧
      next.status.lastAppliedCiVariables = stored.status.lastAppliedCiVariables := by
  have hreleased : ObjectStore.isReleased stored.metadata = false := by
    rw [ObjectStore.isReleased, show stored.metadata.isDeleting = false from h.living,
      Bool.false_and]
  rw [relist, stored_amend h.found h.key, hreleased, if_neg Bool.false_ne_true]
  refine ⟨_, { declared with ciVariables := wanted },
    ⟨h.faults, Std.ExtTreeMap.getElem?_insert_self, h.key, h.living, ?_, h.path⟩, rfl⟩
  simp [Owner.withVersion, Owner.mapMeta, h.template]

/-- After a turn the names are remembered that the template listed before, if the turn was a pass
that succeeded, and else those that were remembered before. -/
theorem Keeping.turn (h : Keeping o path v stored declared)
    (hserves : r.registry.Serves (forge site)) (turn : Turn (List CiVariable)) :
    (∃ next declared', Keeping o path (listTurn r o v turn) next declared') ∧
      ∀ key, key ∈ recordedNames o.key (listTurn r o v turn) ↔
        if r.passes o.metadata.space o.metadata.name v turn then
          key ∈ listedNames o.key v
        else key ∈ recordedNames o.key v := by
  cases turn with
  | act wanted =>
      obtain ⟨next, declared', hnext, hsame⟩ := h.change wanted
      refine ⟨⟨next, declared', hnext⟩, fun key => ?_⟩
      rw [passes, if_neg Bool.false_ne_true, h.recorded_eq, ← hsame]
      exact Iff.of_eq (congrArg (key ∈ ·) hnext.recorded_eq)
  | pass now failures =>
      rw [listTurn, afterTurn_pass h.found, passes_pass h.found]
      rcases hrun : (({ r with now } : Reconciler State).reconcile stored
        (v.withFailures failures)).1 with failure | outcome
      · obtain ⟨next, hnext, hsame⟩ := h.error failures hrun
        refine ⟨⟨next, declared, hnext⟩, fun key => ?_⟩
        rw [hnext.recorded_eq, hsame, h.recorded_eq]
        simp [Except.toBool]
      · obtain ⟨next, declared', hnext, happlied⟩ :=
          h.ok (r := { r with now }) hserves failures hrun
        refine ⟨⟨next, declared', hnext⟩, fun key => ?_⟩
        rw [hnext.recorded_eq, happlied, mem_namesOf_appliedAim, h.listed_eq]
        simp [Except.toBool]

/-! ## Variables along a run -/

/-- Of a variable that the template does not list, a pass that succeeds leaves what it found, unless
its name is remembered. -/
theorem Keeping.hasVariable_iff (h : Keeping o path v stored declared)
    (hserves : r.registry.Serves (forge site)) {turn : Turn (List CiVariable)} {key : String}
    (hpasses : r.passes o.metadata.space o.metadata.name v turn = true)
    (hunlisted : key ∉ listedNames o.key v) :
    HasVariable path key (listTurn r o v turn) ↔
      HasVariable path key v ∧ key ∉ recordedNames o.key v := by
  obtain ⟨now, failures, found, outcome, hfound, hrun, hafter⟩ := exists_pass_of_passes hpasses
  obtain rfl := Option.some.inj (h.found.symm.trans hfound)
  have hvariables := variables_of_ok (r := { r with now }) hserves h.living h.template hrun
  rw [h.path] at hvariables
  rw [h.listed_eq] at hunlisted
  rw [listTurn, hafter, h.recorded_eq, hasVariable_iff_mem, hasVariable_iff_mem, hvariables,
    Option.getD_some]
  exact mem_variablesAim_of_unlisted hunlisted

/-- Some turn of a run is a pass that succeeds and whose template lists a name. -/
def Adopts (r : Reconciler State) (o : Owner) (key : String) :
    World State → List (Turn (List CiVariable)) → Prop
  | _, [] => False
  | v, turn :: rest =>
    (r.passes o.metadata.space o.metadata.name v turn = true ∧ key ∈ listedNames o.key v) ∨
      Adopts r o key (listTurn r o v turn) rest

/-- While a variable is there, its name is remembered exactly if it was so at first, or a pass that
succeeded has listed it since. -/
theorem Keeping.recorded_run {key : String} (hserves : r.registry.Serves (forge site))
    (turns : List (Turn (List CiVariable))) (h : Keeping o path v stored declared)
    (hthere : r.Throughout o.metadata.space o.metadata.name (relist o)
      (HasVariable path key) v turns) :
    key ∈ recordedNames o.key (listRun r o v turns) ↔
      key ∈ recordedNames o.key v ∨ Adopts r o key v turns := by
  induction turns generalizing v stored declared with
  | nil => simp [Adopts, listRun, runTurns]
  | cons turn rest ih =>
      obtain ⟨hfirst, hrest⟩ := hthere
      obtain ⟨⟨next, declared', hnext⟩, hrecorded⟩ := h.turn hserves turn
      refine (ih hnext hrest).trans ?_
      rw [hrecorded, Adopts, ← or_assoc]
      refine or_congr_left ?_
      split
      · rename_i hpasses
        -- a remembered variable that is not listed would have been dropped
        have hlisted : key ∈ recordedNames o.key v → key ∈ listedNames o.key v :=
          fun hremembered => Classical.byContradiction fun hunlisted =>
            ((h.hasVariable_iff hserves hpasses hunlisted).1 hfirst).2 hremembered
        simp only [hpasses, true_and]
        exact ⟨.inr, fun hend => hend.elim hlisted id⟩
      · rename_i hfails
        simp [hfails]

/-! ## Main statement -/

/-- A variable that has been there since a turn of a run, and that the template does not list any
more: it is still there after a pass that succeeds exactly if its name was not remembered before
that turn, and no pass that succeeded has listed it since. -/
theorem dropped_variable_stays_iff {w : World State} {key : String}
    (hserves : r.registry.Serves (forge site)) (hfetched : Fetched o w)
    (hliving : o.isDeleting = false) (htemplate : o.spec.gitTemplate = some declared)
    (before : List (Turn (List CiVariable))) (creation : Turn (List CiVariable))
    (later : List (Turn (List CiVariable))) (last : Turn (List CiVariable))
    (hthere : r.Throughout o.metadata.space o.metadata.name (relist o)
      (HasVariable declared.fullPath key) (listRun r o w before) (creation :: later))
    (hpasses : r.passes o.metadata.space o.metadata.name
      (listRun r o w (before ++ creation :: later)) last = true)
    (hunlisted : key ∉ listedNames o.key (listRun r o w (before ++ creation :: later))) :
    HasVariable declared.fullPath key
        (listRun r o w (before ++ creation :: later ++ [last])) ↔
      key ∉ recordedNames o.key (listRun r o w before) ∧
        ¬ Adopts r o key (listRun r o w before) (creation :: later) := by
  have hrun : ∀ turns, ∃ stored declared', Keeping o declared.fullPath (listRun r o w turns)
      stored declared' := by
    refine fun turns => runTurns_invariant
      (P := fun v => ∃ stored declared', Keeping o declared.fullPath v stored declared')
      (fun v turn hv => ?_) ⟨o, declared, hfetched.faults, hfetched.stored, rfl, hliving,
        htemplate, rfl⟩ turns
    obtain ⟨stored, declared', hv⟩ := hv
    exact (hv.turn hserves turn).1
  obtain ⟨stored, declared', hbefore⟩ := hrun before
  obtain ⟨stored', declared'', hlater⟩ := hrun (before ++ creation :: later)
  have hstill : HasVariable declared.fullPath key
      (listRun r o w (before ++ creation :: later)) := by
    rw [listRun, runTurns_append]
    exact hthere.2.runTurns hthere.1
  have hrecorded := hbefore.recorded_run hserves (creation :: later) hthere
  rw [listRun, runTurns_append]
  refine (hlater.hasVariable_iff hserves hpasses hunlisted).trans ?_
  rw [and_iff_right hstill, ← not_or, ← hrecorded, listRun, runTurns_append]

theorem fetched_variableTenant : Fetched variableTenant variableStart :=
  ⟨by decide +kernel, rfl⟩

/-- The first pass lists the variable and succeeds, so the second one drops it. -/
theorem dropped_variable_stays_iff_variableTenant :
    ¬ HasVariable "acme/r" "A" (listRun sampleReconciler variableTenant variableStart
      [.pass ⟨0, 0⟩ ∅, .act [], .pass ⟨1, 0⟩ ∅]) := by
  intro hstays
  have hend := (dropped_variable_stays_iff (r := sampleReconciler) (serves_factory sampleSite)
    fetched_variableTenant rfl rfl [] (.pass ⟨0, 0⟩ ∅) [.act []] (.pass ⟨1, 0⟩ ∅)
    ⟨by decide +kernel, by decide +kernel, trivial⟩ (by decide +kernel) (by decide +kernel)).1
    hstays
  exact hend.2 (.inl ⟨by decide +kernel, by decide +kernel⟩)

/-- A tenant that wants an access token besides the variable. -/
def tokenTenant : Owner where
  metadata := { name := "t", space := "ns", resourceVersion := 1 }
  spec.gitTemplate := some { variableTemplate with accessToken := some "bot" }

/-- A variable that a pass has created and the template does not list any more is not always gone
after a pass that succeeds: the first pass creates the variable and fails at the access token, and
then the template lists none. -/
theorem left_behind_after_failure :
    ¬ ∀ (r : Reconciler State) (o : Owner) (w : World State) (declared : Descriptor) (key : String)
        (turns : List (Turn (List CiVariable))) (last : Turn (List CiVariable)),
      r.registry.Serves (forge sampleSite) → Fetched o w → o.isDeleting = false →
      o.spec.gitTemplate = some declared → ¬ HasVariable declared.fullPath key w →
      r.passes o.metadata.space o.metadata.name (listRun r o w turns) last = true →
      key ∉ listedNames o.key (listRun r o w turns) →
      ¬ HasVariable declared.fullPath key (listRun r o w (turns ++ [last])) := by
  intro h
  let w : World State := { sampleWorld {} with store := (({} : ObjectStore).insert tokenTenant).2 }
  let failures : Table String := Std.ExtTreeMap.ofList [("list_access_tokens", "down")]
  exact h sampleReconciler tokenTenant w _ "A" [.pass ⟨0, 0⟩ failures, .act []] (.pass ⟨1, 0⟩ ∅)
    (serves_factory sampleSite) ⟨by decide +kernel, rfl⟩ rfl rfl (by decide +kernel)
    (by decide +kernel) (by decide +kernel) (by decide +kernel)

end Reconciler

end ForgeSync
