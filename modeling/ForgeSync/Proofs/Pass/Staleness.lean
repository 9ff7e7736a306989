import ForgeSync.Proofs.Pass.Effect
import ForgeSync.Proofs.Pass.Orphans

/-!
# Passes over outdated copies

The store refuses what is written on an outdated copy, and a refused write asks for another pass.
But a pass writes only what it has changed about its copy. So a copy that needs no change is not
noticed to be outdated, whatever the pass does on the forge.

Main statements: `requeue_of_outdated_iff` and `repair_on_outdated_copy`.
-/

namespace ForgeSync

open Calendar (Instant)
open Forge.Memory

/-! ## Writes that are refused -/

theorem Owner.eq_iff {a b : Owner} :
    a = b ↔ a.metadata = b.metadata ∧ a.spec = b.spec ∧ a.status = b.status := by
  cases a
  cases b
  simp

namespace Lifecycle

variable {σ : Type} {p : Pass σ} {rules : Rules} {stored : Owner}

/-- No write of the object in hand gets through: another version of it is stored. -/
structure Outdated (p : Pass σ) : Prop where
  faults : p.world.faults = {}
  refused : p.world.store.current p.object =
    .error (.conflict p.object.kind.name p.object.key)

theorem Outdated.of_stored (hfaults : p.world.faults = {})
    (hstored : p.world.store.objects[p.object.key]? = some stored)
    (hversion : stored.metadata.resourceVersion ≠ p.object.metadata.resourceVersion) :
    Outdated p :=
  ⟨hfaults, by simp [ObjectStore.current, hstored, hversion]⟩

theorem runFrom_storeObject_of_outdated (h : Outdated p) :
    (storeObject rules).runFrom p =
      if p.object.metadata = rules.initial.metadata ∧ p.object.spec = rules.initial.spec then
        (.ok (), p)
      else (.error (.conflict p.object.kind.name p.object.key), p) := by
  have hrun := Pass.runFrom_onWorld (World.runFrom_updateObject_of_refused h.faults h.refused)
  simp only [storeObject, Act.runFrom_bind, Act.runFrom_get]
  split
  · rename_i hchanged
    rw [if_neg (Classical.not_and_iff_not_or_not.2 hchanged), Act.runFrom_bind, hrun]
  · rename_i hsame
    rw [if_pos (Classical.not_not.1 (mt Classical.not_and_iff_not_or_not.1 hsame))]
    rfl

theorem runFrom_storeStatus_of_outdated (h : Outdated p) :
    (storeStatus rules).runFrom p =
      if p.object.status = rules.initial.status then (.ok (), p)
      else (.error (.conflict p.object.kind.name p.object.key), p) := by
  have hrun := Pass.runFrom_onWorld (World.runFrom_updateStatus_of_refused h.faults h.refused)
  simp only [storeStatus, Act.runFrom_bind, Act.runFrom_get]
  by_cases hsame : p.object.status = rules.initial.status
  · rw [if_neg (by simpa using hsame), if_pos hsame]
    rfl
  · rw [if_pos hsame, if_neg hsame, Act.runFrom_bind, Act.runFrom_attempt, hrun]
    rfl

/-- The closing of a pass over an outdated copy writes nothing. It asks for another pass exactly if
the pass has changed the copy. -/
theorem closing_of_outdated (h : Outdated p) :
    runSteps rules [updateObject] p =
      (.ok { requeue := decide (p.object ≠ rules.initial) }, p) := by
  apply runSteps_of_stop
  simp only [updateObject, Act.runFrom_bind, Act.runFrom_attempt,
    runFrom_storeObject_of_outdated h]
  by_cases hsame : p.object.metadata = rules.initial.metadata ∧ p.object.spec = rules.initial.spec
  · rw [if_pos hsame]
    dsimp only
    rw [runFrom_storeStatus_of_outdated h]
    by_cases hstatus : p.object.status = rules.initial.status
    · have hunchanged : p.object = rules.initial :=
        Owner.eq_iff.2 ⟨hsame.1, hsame.2, hstatus⟩
      rw [if_pos hstatus]
      simp [hunchanged]
    · have hchanged : p.object ≠ rules.initial := fun heq => hstatus (by rw [heq])
      rw [if_neg hstatus]
      simp [hchanged, Failure.isConflict]
  · have hchanged : p.object ≠ rules.initial := fun heq => hsame (by rw [heq]; exact ⟨rfl, rfl⟩)
    rw [if_neg hsame]
    simp [hchanged, Failure.isConflict]

end Lifecycle

/-! ## Copies that need no change -/

/-- A remembered token will do exactly if there is a usable one under its name. -/
theorem remembers_iff {repo : Descriptor} {now : Instant} {hint : Option UInt64}
    {tokens : List AccessTokenRecord} :
    Remembers repo now hint tokens ↔ (repo.accessToken.isSome = true →
      ∃ token ∈ tokens, isUsable now token = true ∧ hint = some token.uid) := by
  refine imp_congr_right fun _ => ⟨fun hremembers => ?_, fun hfound => ?_⟩
  · obtain ⟨uid, token, hhint, hchosen, rfl⟩ := hremembers
    obtain ⟨listed, hlisted, hsuits, huid⟩ := suits_of_chosen hchosen
    exact ⟨listed, hlisted, isUsable_iff_lasts.2 hsuits.1, huid ▸ hhint⟩
  · obtain ⟨token, hmem, husable, rfl⟩ := hfound
    obtain ⟨found, hfound, huid⟩ := chosen_of_mem hmem (isUsable_iff_lasts.1 husable)
    exact ⟨_, found, rfl, hfound, huid⟩

namespace Reconciler

/-- A copy of an object that a pass finds nothing to change about. The repository has `tokens` at
the end of the pass. -/
structure UpToDate (r : Reconciler State) (site : Site) (connection : Connection) (o : Owner)
    (declared : Descriptor) (tokens : List AccessTokenRecord) : Prop where
  marked : r.settings.deletionProtection = true → protectionKey ∈ o.metadata.annotations
  finalizer : ∀ name, r.settings.finalizer = some name → name ∈ o.metadata.finalizers
  noFinalizer : r.settings.finalizer = none → defaultFinalizerName ∉ o.metadata.finalizers
  displayName : declared.displayName.isSome
  repoType : declared.repoType.isSome
  deletionPolicy : declared.deletionPolicy.isSome
  creationPolicy : declared.creationPolicy.isSome
  phase : o.status.phase = .created
  providerType : o.status.providerType = some "memory"
  url : o.status.url = some ((forge site).cloneUrl declared)
  hostKeys : o.status.hostKeys = connection.hostKeys
  ciVariables : o.status.lastAppliedCiVariables = some declared.trace ∨
    o.status.lastAppliedCiVariables = none ∧ declared.ciVariables = []
  token : declared.accessToken.isSome = true →
    ∃ token ∈ tokens, isUsable r.now token = true ∧ o.status.accessTokenUid = some token.uid

variable {r : Reconciler State} {site : Site} {connection : Connection} {o : Owner}
  {declared : Descriptor} {w : World State}

theorem keptAnnotations_eq_iff {annotations : Table String} :
    r.keptAnnotations annotations = annotations ↔
      (r.settings.deletionProtection = true → protectionKey ∈ annotations) := by
  unfold keptAnnotations
  by_cases hmissing : r.settings.deletionProtection = true ∧ protectionKey ∉ annotations
  · rw [if_pos hmissing]
    refine iff_of_false (fun hsame => hmissing.2 ?_) fun hthere => hmissing.2 (hthere hmissing.1)
    rw [← hsame]
    exact Std.ExtTreeMap.mem_insert_self
  · rw [if_neg hmissing]
    exact iff_of_true rfl fun hwanted => Classical.not_not.1 fun habsent =>
      hmissing ⟨hwanted, habsent⟩

theorem keptFinalizers_eq_iff {finalizers : List String} :
    r.keptFinalizers finalizers = finalizers ↔
      (∀ name, r.settings.finalizer = some name → name ∈ finalizers) ∧
        (r.settings.finalizer = none → defaultFinalizerName ∉ finalizers) := by
  unfold keptFinalizers
  cases r.settings.finalizer with
  | none =>
      simp only [List.filter_eq_self]
      simpa using ⟨fun h hmem => h _ hmem rfl, fun h name hname heq => h (heq ▸ hname)⟩
  | some name => by_cases hthere : name ∈ finalizers <;> simp [hthere]

theorem appliedAim_eq_iff {repo : Descriptor} {previous : Option AppliedVariables} :
    appliedAim repo previous = previous ↔
      previous = some repo.trace ∨ previous = none ∧ repo.ciVariables = [] := by
  have hempty : repo.trace.names.isEmpty = true ↔ repo.ciVariables = [] := by
    simp [Descriptor.trace, AppliedVariables.ofDesired, AppliedVariables.sorted,
      ← List.length_eq_zero_iff, List.length_mergeSort]
  unfold appliedAim
  by_cases hsame : previous = some repo.trace
  · simp [hsame]
  · rw [if_neg hsame, ← hempty]
    cases repo.trace.names.isEmpty <;> simp [hsame, eq_comm (b := previous)]

/-- A completed template that was complete before is as it was. -/
theorem completedTemplate_eq_iff {deletion : DeletionPolicy} {creation : CreationPolicy} :
    completedTemplate o deletion creation declared = declared ↔
      declared.displayName.isSome ∧ declared.repoType.isSome ∧ declared.deletionPolicy.isSome ∧
        declared.creationPolicy.isSome := by
  have hsome : ∀ {α : Type} (a : Option α) (b : α), some (a.getD b) = a ↔ a.isSome := by
    intro α a b
    cases a <;> simp
  rcases declared with
    ⟨path, name, displayName, repoType, keys, files, policy, creating, token, vars⟩
  simp only [completedTemplate, Descriptor.mk.injEq, true_and, and_true, hsome]

/-- Of a template only the path and the variables show in the status. -/
theorem createdStatus_congr {repo other : Descriptor} (hpath : repo.fullPath = other.fullPath)
    (htrace : repo.trace = other.trace) (status : RepoStatus) (uid : Option UInt64) :
    Convergence.createdStatus site connection repo status uid =
      Convergence.createdStatus site connection other status uid := by
  have hurl : (forge site).cloneUrl repo = (forge site).cloneUrl other := by
    delta Forge.cloneUrl
    rw [hpath]
  have happlied : appliedAim repo status.lastAppliedCiVariables =
      appliedAim other status.lastAppliedCiVariables := by
    unfold appliedAim
    rw [htrace]
  unfold Convergence.createdStatus
  rw [hurl, happlied]

/-- A living object has arrived exactly if it is up to date. -/
theorem arrival_eq_iff {uid : Option UInt64} {tokens : List AccessTokenRecord}
    (htemplate : o.spec.gitTemplate = some declared)
    (htoken : uid = o.status.accessTokenUid ↔
      Remembers declared r.now o.status.accessTokenUid tokens) :
    r.arrival (completedTemplate o r.settings.defaultDeletionPolicy
        r.settings.defaultCreationPolicy declared) o
      (Convergence.createdStatus site connection declared o.status uid) = o ↔
      r.UpToDate site connection o declared tokens := by
  have hmetadata : r.keptMeta o.metadata = o.metadata ↔
      r.keptAnnotations o.metadata.annotations = o.metadata.annotations ∧
        r.keptFinalizers o.metadata.finalizers = o.metadata.finalizers := by
    rcases o.metadata with ⟨name, space, version, deletion, finalizers, annotations, labels⟩
    simp [keptMeta, and_comm]
  have hspec : (o.withTemplate (completedTemplate o r.settings.defaultDeletionPolicy
      r.settings.defaultCreationPolicy declared)).spec = o.spec ↔
      completedTemplate o r.settings.defaultDeletionPolicy r.settings.defaultCreationPolicy declared
        = declared := by
    refine ⟨fun hsame => ?_, fun hsame => ?_⟩
    · exact Option.some.inj ((congrArg (·.gitTemplate) hsame).trans htemplate)
    · rw [hsame, Owner.withTemplate, ← htemplate]
  have hstatus : Convergence.createdStatus site connection declared o.status uid = o.status ↔
      o.status.phase = .created ∧ o.status.providerType = some "memory" ∧
        o.status.url = some ((forge site).cloneUrl declared) ∧
        o.status.hostKeys = connection.hostKeys ∧ uid = o.status.accessTokenUid ∧
        appliedAim declared o.status.lastAppliedCiVariables = o.status.lastAppliedCiVariables := by
    rcases o.status with ⟨phase, providerType, url, hostKeys, accessTokenUid, applied⟩
    simp [Convergence.createdStatus, forge, eq_comm]
  rw [Owner.eq_iff]
  dsimp only [arrival]
  rw [hmetadata, hspec, hstatus, keptAnnotations_eq_iff, keptFinalizers_eq_iff,
    completedTemplate_eq_iff, appliedAim_eq_iff, htoken, remembers_iff]
  constructor
  · intro hsame
    obtain ⟨⟨hmarked, hfinalizer, hnone⟩, ⟨hname, htype, hdeletion, hcreation⟩, hphase,
      hprovider, hurl, hkeys, htoken, hvariables⟩ := hsame
    exact ⟨hmarked, hfinalizer, hnone, hname, htype, hdeletion, hcreation, hphase, hprovider,
      hurl, hkeys, hvariables, htoken⟩
  · intro h
    exact ⟨⟨h.marked, h.finalizer, h.noFinalizer⟩,
      ⟨h.displayName, h.repoType, h.deletionPolicy, h.creationPolicy⟩, h.phase, h.providerType,
      h.url, h.hostKeys, h.token, h.ciVariables⟩

theorem object_finalized {repo : Descriptor} {p : Pass State} (hliving : o.isDeleting = false)
    (hkeeps : Pass.Keeps (Convergence.templated (r.opening o w) repo) p) :
    (r.finalized o p).object = r.arrival repo o p.object.status := by
  have hdeleted : p.deleted = false := hkeeps.deleted.trans hliving
  have hmetadata := hkeeps.metadata
  have hspec := hkeeps.spec
  rw [templated_opening hliving] at hmetadata hspec
  dsimp only [finalized, Owner.mapMeta, arrival]
  rw [hdeleted, hmetadata, hspec, finalize_rules]
  rfl

/-! ## Main statement -/

/-- A pass over an outdated copy of a living object that does not fail leaves the store as it is. It
asks for another pass exactly if the copy was not up to date. -/
theorem requeue_of_outdated_iff {stored : Owner} {outcome : Outcome}
    (hserves : r.registry.Serves (forge site)) (hfaults : w.faults = {})
    (hstored : w.store.objects[o.key]? = some stored)
    (holder : o.metadata.resourceVersion < stored.metadata.resourceVersion)
    (hliving : o.isDeleting = false) (htemplate : o.spec.gitTemplate = some declared)
    (hok : (r.reconcile o w).1 = .ok outcome) :
    (r.reconcile o w).2.world.store = w.store ∧
      ∃ data connection tokens, w.secrets.get? o.metadata.space o.tenantRef = some data ∧
        Connection.ofData o.tenantRef data = .ok connection ∧
        (r.reconcile o w).2.world.backend.tokens declared.fullPath = some tokens ∧
        (outcome.requeue = true ↔ ¬ r.UpToDate site connection o declared tokens) := by
  obtain ⟨p, hwork, hclosing, hbackend⟩ := exists_work_of_ok hok
  obtain ⟨connection, haccess, hsettles⟩ :=
    (ends_converge_settles hserves hliving (completed_of_template htemplate)).of_ok hwork
  have hpath : (completedTemplate o r.settings.defaultDeletionPolicy
      r.settings.defaultCreationPolicy declared).fullPath = declared.fullPath := rfl
  have hobject := object_finalized hliving hsettles.keeps
  have hstatus := hsettles.status
  have htoken := hsettles.token
  rw [templated_opening hliving] at hstatus htoken
  rw [createdStatus_congr hpath rfl] at hstatus
  have hfinalized : (r.finalized o p).world.store = w.store ∧
      (r.finalized o p).world.faults = w.faults := by
    rw [finalized_world, hsettles.keeps.store, hsettles.keeps.faults]
    exact ⟨rfl, rfl⟩
  have houtdated : Lifecycle.Outdated (r.finalized o p) := by
    apply Lifecycle.Outdated.of_stored (hfinalized.2.trans hfaults)
    · rw [hfinalized.1, hobject]
      exact hstored
    · rw [hobject]
      exact Nat.ne_of_gt holder
  -- so all that is seen of the outdated copy is whether the pass has changed it
  have hclosed : runSteps (r.rules o) [Lifecycle.updateObject] (r.finalized o p) =
      (.ok { requeue := decide ((r.finalized o p).object ≠ o) }, r.finalized o p) :=
    Lifecycle.closing_of_outdated houtdated
  rw [hclosing, hclosed] at hok
  dsimp only at hok
  rw [Except.ok.injEq] at hok
  obtain ⟨project, hproject, -⟩ := Option.map_eq_some_iff.1 hsettles.settled
  have htokens : p.world.backend.tokens declared.fullPath = some project.tokens := by
    rw [State.tokens, ← hpath, hproject, Option.map_some]
  obtain ⟨data, hdata, hconnection⟩ := haccess.secret
  rw [(kin_admitted r o).tenantRef] at hdata hconnection
  rw [(kin_admitted r o).space] at hdata
  refine ⟨by rw [hclosing, hclosed, hfinalized.1], data, connection, project.tokens, hdata,
    hconnection, by rw [hbackend, htokens], ?_⟩
  rw [← hok, decide_eq_true_iff, hobject, hstatus]
  rw [hpath, htokens, Option.getD_some] at htoken
  exact not_congr (arrival_eq_iff htemplate htoken)

/-! ## A repair that nobody notices -/

/-- An object with a label that a user has set. -/
def labelled (o : Owner) : Owner :=
  o.mapMeta fun m => { m with labels := m.labels.insert "team" "a" }

/-- The tenant has never been through a pass, so a pass over an old copy of it is noticed. -/
theorem requeue_of_outdated_iff_sampleTenant :
    let w : World State :=
      { sampleStart with store := (sampleStart.store.update (labelled sampleTenant)).2 }
    ∃ outcome, (sampleReconciler.reconcile sampleTenant w).1 = .ok outcome ∧
      outcome.requeue = true := by
  intro w
  obtain ⟨outcome, hok⟩ : ∃ outcome, (sampleReconciler.reconcile sampleTenant w).1 = .ok outcome :=
    ⟨{ requeue := true }, by decide +kernel⟩
  have hstored : w.store.objects[sampleTenant.key]? =
      some ((labelled sampleTenant).withVersion 2) := by
    decide +kernel
  obtain ⟨-, data, connection, tokens, -, -, -, hrequeue⟩ :=
    requeue_of_outdated_iff (serves_factory sampleSite) rfl hstored (by decide) rfl rfl hok
  exact ⟨outcome, hok, hrequeue.2 fun huptodate => nomatch huptodate.phase⟩

/-- The world after a pass over the tenant. -/
def settledWorld : World State :=
  (sampleReconciler.reconcile sampleTenant sampleStart).2.world

/-- The tenant as the pass has stored it. -/
def settledTenant : Owner :=
  (settledWorld.store.get? "ns" "t").getD sampleTenant

/-- A pass over an outdated copy that changes something on the forge is not always noticed. The copy
is settled, a user has labelled the object since, and somebody has deleted the deploy key: the pass
adds it again, and has nothing to store. -/
theorem repair_on_outdated_copy :
    ¬ ∀ (r : Reconciler State) (o changed stored : Owner) (earlier : World State)
        (store : ObjectStore) (backend : State) (new : List Forge.Call) (outcome : Outcome),
      r.registry.Serves (forge sampleSite) → Fetched o earlier → changed.key = o.key →
      earlier.store.update changed = (.ok stored, store) → stored.isDeleting = false →
      o.metadata.resourceVersion < stored.metadata.resourceVersion → backend.failures = ∅ →
      (r.reconcile o { earlier with store, backend }).2.world.backend.calls =
        backend.calls ++ new →
      (∃ call ∈ new, call.isMutating = true) →
      (r.reconcile o { earlier with store, backend }).1 = .ok outcome → outcome.requeue = true := by
  intro h
  let backend := (((forge sampleSite).deleteDeployKey "acme/r" 2).runFrom settledWorld.backend).2
  have hrequeue := h sampleReconciler settledTenant (labelled settledTenant)
    ((labelled settledTenant).withVersion 4) settledWorld
    (settledWorld.store.update (labelled settledTenant)).2 backend
    [.getProject "acme/r", .listDeployKeys "acme/r",
      .addDeployKey "acme/r" "ci" ⟨"ssh-ed25519", "AAAA", false⟩, .getProject "acme/r"]
    {} (serves_factory sampleSite) ⟨by decide +kernel, by decide +kernel⟩ rfl
    (Prod.ext (by decide +kernel) rfl) (by decide +kernel) (by decide +kernel) (by decide +kernel)
    (by decide +kernel) (by decide) (by decide +kernel)
  exact Bool.false_ne_true hrequeue

end Reconciler

end ForgeSync
