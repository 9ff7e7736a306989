import Mathlib.Data.List.Basic
import ForgeSync.Proofs.Pass.Orphans

/-!
# What a pass that fails leaves in the store

A pass that fails has changed the object in hand, but not the stored one: the only write before the
closing is that of the phase `failed`, and it follows two operations only, the one that creates the
repository and the one that commits the template files. Where the store refuses that write, the
failure tells of both.

Main statement: `store_of_failed_pass`.
-/

namespace ForgeSync

/-! ## The operations whose failure is recorded -/

namespace Forge

variable {σ : Type} (forge : Forge σ) (repo : Descriptor)

/-- Creates the repository unless it is there, and commits its template files. -/
def provision (existed : Bool) : Act σ Unit := do
  if !existed then forge.createRepository repo
  forge.commitTemplate repo

theorem provision_of_existed : forge.provision repo true = forge.commitTemplate repo :=
  rfl

theorem provision_of_missing :
    forge.provision repo false =
      forge.createRepository repo >>= fun _ => forge.commitTemplate repo :=
  rfl

/-- The failure of the operation that creates the repository, or of the one that commits its
template files, from a state on. Only what does not exist and may be created is created. -/
def provisionFailure? (s : σ) : Option Failure :=
  match (forge.readRepository repo).runFrom s with
  | (.error _, _) => none
  | (.ok remote, t) =>
    if remote.isSome = false ∧ repo.effectiveCreationPolicy = .adopt then none
    else
      match (forge.provision repo remote.isSome).runFrom t with
      | (.error cause, _) => some cause
      | (.ok (), _) => none

variable {forge repo} {s : σ} {cause : Failure}

theorem of_provisionFailure?_eq_some (h : forge.provisionFailure? repo s = some cause) :
    ∃ remote t after, (forge.readRepository repo).runFrom s = (.ok remote, t) ∧
      (remote.isSome = false → repo.effectiveCreationPolicy ≠ .adopt) ∧
      (forge.provision repo remote.isSome).runFrom t = (.error cause, after) := by
  unfold provisionFailure? at h
  rcases hread : (forge.readRepository repo).runFrom s with ⟨failure | remote, t⟩ <;>
    rw [hread] at h
  · cases h
  · dsimp only at h
    split at h
    · cases h
    · rename_i hallowed
      rcases hrun : (forge.provision repo remote.isSome).runFrom t with ⟨failure | _, after⟩ <;>
        rw [hrun] at h
      · obtain rfl := Option.some.inj h
        exact ⟨remote, t, after, rfl, fun hmissing hadopt => hallowed ⟨hmissing, hadopt⟩, hrun⟩
      · cases h

theorem of_provisionFailure?_eq_none {remote : Option RemoteRepository} {t : σ}
    (h : forge.provisionFailure? repo s = none)
    (hread : (forge.readRepository repo).runFrom s = (.ok remote, t)) :
    remote.isSome = false ∧ repo.effectiveCreationPolicy = .adopt ∨
      ∃ after, (forge.provision repo remote.isSome).runFrom t = (.ok (), after) := by
  unfold provisionFailure? at h
  rw [hread] at h
  dsimp only at h
  split at h
  · exact .inl ‹_›
  · rcases hrun : (forge.provision repo remote.isSome).runFrom t with ⟨failure | _, after⟩
    · rw [hrun] at h
      cases h
    · exact .inr ⟨after, rfl⟩

end Forge

namespace Convergence

variable {σ α β : Type} {forge : Forge σ} {repo : Descriptor} {p : Pass σ} {after : σ}
  {cause : Failure}

/-- What is recorded fails, and nothing follows. -/
theorem runFrom_failWith_bind (f : α → Act (Pass σ) β) (cause : Failure) (p : Pass σ) :
    ((failWith cause : Act (Pass σ) α) >>= f).runFrom p =
      (failWith cause : Act (Pass σ) β).runFrom p := by
  rw [Act.runFrom_bind, runFrom_failWith, runFrom_failWith]
  rcases ((World.updateStatus (p.object.withPhase .failed)).within Pass.onWorld).runFrom
    { p with object := p.object.withPhase .failed } with ⟨_ | _, q⟩ <;> rfl

theorem runFrom_recording_bind_of_error {act : Act σ α} (f : α → Act (Pass σ) β)
    (h : act.runFrom p.world.backend = (.error cause, after)) :
    (recording (act.within Pass.onBackend) >>= f).runFrom p =
      (failWith cause).runFrom (Pass.onBackend.set after p) := by
  have hrecorded : (recording (act.within Pass.onBackend)).runFrom p =
      (failWith cause).runFrom (Pass.onBackend.set after p) := by
    rw [recording, Act.runFrom_bind, Act.runFrom_attempt, Act.runFrom_within,
      show Pass.onBackend.get p = p.world.backend from rfl, h]
  rw [Act.runFrom_bind, hrecorded, ← Act.runFrom_bind, runFrom_failWith_bind]

theorem runFrom_recording_of_ok {act : Act σ α} {a : α}
    (h : act.runFrom p.world.backend = (.ok a, after)) :
    (recording (act.within Pass.onBackend)).runFrom p = (.ok a, Pass.onBackend.set after p) := by
  rw [recording, Act.runFrom_bind, Act.runFrom_attempt, Act.runFrom_within,
    show Pass.onBackend.get p = p.world.backend from rfl, h]
  rfl

/-- A failure of the operations is recorded, from the object in hand but for its phase. -/
theorem prepare_of_failure {existed : Bool}
    (hmay : existed = false → repo.effectiveCreationPolicy ≠ .adopt)
    (hfailed : (forge.provision repo existed).runFrom p.world.backend = (.error cause, after)) :
    ∃ phase, (prepare forge repo existed).runFrom p =
      (failWith cause).runFrom
        (Pass.onBackend.set after { p with object := p.object.withPhase phase }) := by
  cases existed with
  | true =>
      rw [Forge.provision_of_existed] at hfailed
      exact ⟨p.object.status.phase, runFrom_recording_bind_of_error (p := p) _ hfailed⟩
  | false =>
      refine ⟨.creating, ?_⟩
      let q : Pass σ := { p with object := p.object.withPhase .creating }
      have hprepare : (prepare forge repo false).runFrom p =
          (recording ((forge.createRepository repo).within Pass.onBackend) >>= fun _ =>
            recording ((forge.commitTemplate repo).within Pass.onBackend) >>= fun _ =>
              pure ()).runFrom q := by
        rw [prepare_of_missing, createMissing_of_allowed forge (hmay rfl), bind_assoc]
        rfl
      rw [hprepare]
      rw [Forge.provision_of_missing, Act.runFrom_bind] at hfailed
      rcases hcreate : (forge.createRepository repo).runFrom p.world.backend with
        ⟨failure | _, t⟩ <;>
        rw [hcreate] at hfailed
      · obtain ⟨rfl, rfl⟩ : failure = cause ∧ t = after := by simpa using hfailed
        exact runFrom_recording_bind_of_error (p := q) _ hcreate
      · rw [Act.runFrom_bind_of_ok (runFrom_recording_of_ok (p := q) hcreate)]
        exact runFrom_recording_bind_of_error (p := Pass.onBackend.set t q) _ hfailed

/-- Where neither operation fails, nothing is recorded. -/
theorem store_prepare {existed : Bool}
    (h : existed = false ∧ repo.effectiveCreationPolicy = .adopt ∨
      ∃ after, (forge.provision repo existed).runFrom p.world.backend = (.ok (), after)) :
    ((prepare forge repo existed).runFrom p).2.world.store = p.world.store := by
  have hP := Pass.keeps_chains (σ := σ)
  cases existed with
  | true =>
      obtain ⟨hmissing, -⟩ | ⟨after, hok⟩ := h
      · cases hmissing
      rw [Forge.provision_of_existed] at hok
      rw [prepare_of_existed, Act.runFrom_bind_of_ok (runFrom_recording_of_ok hok)]
      exact (hP.moves_bind (Pass.moves_keeps_onBackend _) (fun _ => hP.moves_pure _) _).store
  | false =>
      rw [prepare_of_missing]
      by_cases hadopt : repo.effectiveCreationPolicy = .adopt
      · have hcreate : ∃ failure, (createMissing forge repo).runFrom p = (.error failure, p) := by
          simp [createMissing, hadopt]
        obtain ⟨failure, hcreate⟩ := hcreate
        rw [Act.runFrom_bind_of_error hcreate]
      obtain ⟨-, hcontra⟩ | ⟨after, hok⟩ := h
      · exact (hadopt hcontra).elim
      let q : Pass σ := { p with object := p.object.withPhase .creating }
      rw [Forge.provision_of_missing, Act.runFrom_bind] at hok
      rcases hcreate : (forge.createRepository repo).runFrom p.world.backend with
        ⟨failure | _, t⟩ <;>
        rw [hcreate] at hok
      · simp at hok
      · have hcreating : (createMissing forge repo).runFrom p =
            (.ok (), Pass.onBackend.set t q) := by
          rw [createMissing_of_allowed forge hadopt]
          exact runFrom_recording_of_ok (p := q) hcreate
        rw [Act.runFrom_bind_of_ok hcreating, Act.runFrom_bind_of_ok
          (runFrom_recording_of_ok (p := Pass.onBackend.set t q) hok)]
        rfl

variable {c : Convergence σ} {connection : Connection}

theorem runFrom_readRepository {remote : Option RemoteRepository} {t : σ}
    (h : (forge.readRepository repo).runFrom p.world.backend = (.ok remote, t)) :
    ((forge.readRepository repo).within Pass.onBackend).runFrom p =
      (.ok remote, Pass.onBackend.set t p) := by
  rw [Act.runFrom_within, show Pass.onBackend.get p = p.world.backend from rfl, h]

/-- The failure of the operations is what the work on a living repository records. -/
theorem convergeOn_of_failure (c : Convergence σ) (connection : Connection)
    (hliving : p.deleted = false)
    (hfailed : forge.provisionFailure? repo p.world.backend = some cause) :
    ∃ phase after, (c.convergeOn connection forge repo).runFrom p =
      (failWith cause).runFrom
        (Pass.onBackend.set after { p with object := p.object.withPhase phase }) := by
  obtain ⟨remote, t, after, hread, hmay, hrun⟩ := Forge.of_provisionFailure?_eq_some hfailed
  obtain ⟨phase, hprepare⟩ := prepare_of_failure (p := Pass.onBackend.set t p) hmay hrun
  refine ⟨phase, after, ?_⟩
  rw [convergeOn_of_living hliving, runFrom_readRepository hread]
  dsimp only
  rw [convergeRepository_eq_prepare, Act.runFrom_bind, hprepare, ← Act.runFrom_bind]
  exact runFrom_failWith_bind _ _ _

/-- Where they do not fail, the work on a living repository leaves the store alone. -/
theorem store_convergeOn (hliving : p.deleted = false)
    (hnone : forge.provisionFailure? repo p.world.backend = none) :
    ((c.convergeOn connection forge repo).runFrom p).2.world.store = p.world.store := by
  rw [convergeOn_of_living hliving]
  rcases hread : (forge.readRepository repo).runFrom p.world.backend with ⟨failure | remote, t⟩
  · rw [Act.runFrom_within, show Pass.onBackend.get p = p.world.backend from rfl, hread]
    rfl
  rw [runFrom_readRepository hread]
  dsimp only
  rw [convergeRepository_eq_prepare]
  have hprepare := store_prepare (p := Pass.onBackend.set t p)
    (Forge.of_provisionFailure?_eq_none hnone hread)
  rw [Act.runFrom_bind]
  rcases hrun : (prepare forge repo remote.isSome).runFrom (Pass.onBackend.set t p) with
    ⟨failure | _, q⟩ <;> rw [hrun] at hprepare
  · exact hprepare
  · exact (moves_keeps_finish q).store.trans hprepare

end Convergence

/-! ## The whole pass -/

/-- Whether a write is refused is a matter of key and version; kind and key name the refusal. -/
theorem ObjectStore.current_congr {store : ObjectStore} {a b : Owner} (hkey : b.key = a.key)
    (hkind : b.kind = a.kind) (hversion : b.metadata.resourceVersion = a.metadata.resourceVersion) :
    store.current b = store.current a := by
  simp only [current, hkey, hkind, hversion]

/-- Where the store refuses the write of the status, the failure tells of both. -/
theorem Convergence.runFrom_failWith_of_refused {σ α : Type} {p : Pass σ} {refusal : Failure}
    (cause : Failure) (hfaults : p.world.faults = {})
    (hrefused : p.world.store.current p.object = .error refusal) :
    ∃ q, (failWith cause : Act (Pass σ) α).runFrom p =
        (.error (.statusPersist cause refusal), q) ∧ q.world = p.world := by
  have hrun := Pass.runFrom_onWorld (p := { p with object := p.object.withPhase .failed })
    (World.runFrom_updateStatus_of_refused (o := p.object.withPhase .failed) hfaults
      ((ObjectStore.current_congr rfl rfl rfl).trans hrefused))
  rw [runFrom_failWith, hrun]
  exact ⟨_, rfl, rfl⟩

namespace Reconciler

variable {σ : Type} {r : Reconciler σ} {o : Owner} {w : World σ} {cause : Failure}

/-- A pass on a living object has reached a forge, and the repository could not be created there or
its template files could not be committed. -/
def ProvisionFails (r : Reconciler σ) (o : Owner) (w : World σ) (cause : Failure) : Prop :=
  o.isDeleting = false ∧ ∃ repo connection forge,
    r.convergence.Access o w repo connection forge ∧
      forge.provisionFailure? repo w.backend = some cause

/-- A pass that is about to record a failure: nothing is written yet, and the object in hand is the
one that the pass was about, but for what a write of the status does not store. -/
structure Recording (o : Owner) (w : World σ) (p : Pass σ) : Prop where
  world : p.world = { w with backend := p.world.backend }
  key : p.object.key = o.key
  kind : p.object.kind = o.kind
  version : p.object.metadata.resourceVersion = o.metadata.resourceVersion
  status : (p.object.withPhase .failed).status = (o.withPhase .failed).status

theorem reconcile_of_provisionFails (hfaults : w.faults = {}) (h : r.ProvisionFails o w cause) :
    ∃ p, Recording o w p ∧ ∀ failure q,
      (Convergence.failWith cause : Act (Pass σ) Unit).runFrom p = (.error failure, q) →
        r.reconcile o w = (.error ⟨"RepoConvergence", failure⟩, q) := by
  obtain ⟨hliving, repo, connection, forge, haccess, hfailed⟩ := h
  obtain ⟨annotations, hadmitted⟩ := admitted_annotations r o
  obtain ⟨phase, after, hwork⟩ := Convergence.convergeOn_of_failure r.convergence connection
    (p := Convergence.templated (r.opening o w) repo) hliving hfailed
  generalize hp : Pass.onBackend.set after _ = p at hwork
  refine ⟨p, ?_, fun failure q hrun => ?_⟩
  · rw [← hp]
    constructor <;> simp only [Convergence.templated, opening, hadmitted] <;> rfl
  · rw [reconcile_of_admitted r o w (by simp [hliving]),
      Convergence.converge_of_access (p := r.opening o w)
        (haccess.of_kin (kin_admitted r o) rfl hfaults), hwork, hrun]

/-- Any other failure of the work on the repository leaves the store alone. -/
theorem store_converge (hfetched : Fetched o w) (hnone : ∀ cause, ¬ r.ProvisionFails o w cause) :
    r.convergence.converge.Ends (r.opening o w) (fun _ _ => True)
      fun _ q => q.world.store = w.store := by
  unfold Act.Ends
  by_cases haccess : ∃ repo connection forge,
      r.convergence.Access (r.admitted o) w repo connection forge
  · obtain ⟨repo, connection, forge, haccess⟩ := haccess
    have hstore : ((r.convergence.convergeOn connection forge repo).runFrom
        (Convergence.templated (r.opening o w) repo)).2.world.store = w.store := by
      cases hdeleting : o.isDeleting with
      | true =>
          rw [Convergence.convergeOn_of_deleted
            (p := Convergence.templated (r.opening o w) repo) hdeleting]
          exact (Pass.moves_keeps_onBackend _ _).store
      | false =>
          refine Convergence.store_convergeOn
            (p := Convergence.templated (r.opening o w) repo) hdeleting ?_
          refine Option.eq_none_iff_forall_ne_some.2 fun cause hcause => hnone cause ?_
          exact ⟨hdeleting, repo, connection, forge,
            haccess.of_kin (kin_admitted r o).symm rfl hfetched.faults, hcause⟩
    rw [Convergence.converge_of_access (p := r.opening o w) haccess]
    generalize (r.convergence.convergeOn connection forge repo).runFrom _ = run at hstore ⊢
    rcases run with ⟨_ | _, q⟩
    · exact hstore
    · trivial
  · have hstrayed := Convergence.strayed_of_no_access (c := r.convergence) (p := r.opening o w)
      fun repo connection forge hreached => haccess ⟨repo, connection, forge, hreached⟩
    rcases hrun : r.convergence.converge.runFrom (r.opening o w) with ⟨failure | _, q⟩ <;>
      rw [hrun] at hstrayed
    · exact congrArg World.store hstrayed.world
    · trivial

/-- What the store is after a pass that failed. A failure to create the repository or to commit its
files is recorded as the phase, if the copy in hand is current; if it is not, the failure tells of
the refusal too, and nothing is written. After any other failure of a pass on a fresh copy the store
is what it was. -/
theorem store_of_failed_pass (hfaults : w.faults = {}) :
    (∀ cause, r.ProvisionFails o w cause →
      (w.store.objects[o.key]? = some o →
        (r.reconcile o w).1 = .error ⟨"RepoConvergence", cause⟩ ∧
          (r.reconcile o w).2.world.store = w.store.markFailed o) ∧
      ∀ refusal, w.store.current o = .error refusal →
        (r.reconcile o w).1 = .error ⟨"RepoConvergence", .statusPersist cause refusal⟩ ∧
          (r.reconcile o w).2.world.store = w.store) ∧
    (w.store.objects[o.key]? = some o → (∀ cause, ¬ r.ProvisionFails o w cause) →
      ∀ failure, (r.reconcile o w).1 = .error failure →
        (r.reconcile o w).2.world.store = w.store) := by
  refine ⟨fun cause hcause => ⟨fun hstored => ?_, fun refusal hrefused => ?_⟩,
    fun hstored hnone failure herror => ?_⟩
  · obtain ⟨p, hp, hreconcile⟩ := reconcile_of_provisionFails hfaults hcause
    have hholds : p.Holds o := by
      refine ⟨⟨?_, ?_, hp.key, hp.version⟩, hp.status⟩ <;> rw [hp.world]
      · exact hfaults
      · exact hstored
    have hends := Convergence.ends_failWith (α := Unit) cause hholds
    rcases hrun : (Convergence.failWith cause : Act (Pass σ) Unit).runFrom p with ⟨failure | _, q⟩
    · obtain ⟨rfl, hworld⟩ := hends.of_error hrun
      rw [hreconcile _ _ hrun, hworld, hp.world]
      exact ⟨rfl, rfl⟩
    · exact (hends.of_ok hrun).elim
  · obtain ⟨p, hp, hreconcile⟩ := reconcile_of_provisionFails hfaults hcause
    have hcurrent : p.world.store.current p.object = .error refusal := by
      rw [hp.world]
      exact (ObjectStore.current_congr hp.key hp.kind hp.version).trans hrefused
    obtain ⟨q, hrun, hworld⟩ := Convergence.runFrom_failWith_of_refused (α := Unit) cause
      (by rw [hp.world]; exact hfaults) hcurrent
    rw [hreconcile _ _ hrun, hworld, hp.world]
    exact ⟨rfl, rfl⟩
  · by_cases hallowed : o.isDeleting = true → Lifecycle.isAllowed (r.rules o) o = true
    · rcases hrun : r.convergence.converge.runFrom (r.opening o w) with ⟨cause | _, q⟩
      · rw [reconcile_of_admitted r o w hallowed, hrun]
        exact (store_converge ⟨hstored, hfaults⟩ hnone).of_error hrun
      · obtain ⟨_, hreconcile, -⟩ := completed_of_work ⟨hstored, hfaults⟩ hallowed hrun
        rw [hreconcile] at herror
        cases herror
    · obtain ⟨hdeleting, hrefused⟩ := Classical.not_imp.1 hallowed
      rw [reconcile_of_refused r o w hdeleting (Bool.eq_false_iff.2 hrefused)]

/-! ## A failure of each kind -/

open Forge.Memory

theorem resolve_factory {site : Site} {endpoint : String}
    (h : endpoint.startsWith endpointStart = true) :
    (Registry.ofList [factory site]).resolve autoRepoType endpoint = .ok (factory site) := by
  have hfound : (Registry.ofList [factory site]).factories.find? (·.accepts endpoint) =
      some (factory site) :=
    List.find?_cons_of_pos h
  rw [Registry.resolve, if_pos rfl, hfound]

/-- The template of the tenant, completed. -/
def sampleRepo : Descriptor :=
  completedTemplate sampleTenant .retain .create (sampleTenant.spec.gitTemplate.getD default)

/-- The secret of the tenant leads to the forge. -/
theorem access_sampleTenant {w : World State} (hsecrets : w.secrets = sampleStart.secrets)
    (hfaults : w.faults = {}) :
    sampleReconciler.convergence.Access sampleTenant w sampleRepo
      ⟨"memory://git.example", "x", none⟩ (forge sampleSite) where
  template := rfl
  tenant := by decide +kernel
  secrets := by rw [hfaults]
  secret := ⟨Std.ExtTreeMap.ofList [("endpoint", "memory://git.example"), ("token", "x")],
    by rw [hsecrets]; decide +kernel, by decide +kernel⟩
  provider := ⟨factory sampleSite, resolve_factory (by decide +kernel), rfl⟩

/-- The forge refuses to create the repository: the failure is recorded on a current copy, and on an
outdated one it tells of the conflict. The forge refuses to read the repository: nothing is
recorded. -/
theorem store_of_failed_pass_sampleTenant :
    let refusing := sampleStart.withFailures (Std.ExtTreeMap.ofList [("create_project", "down")])
    let unreachable := sampleStart.withFailures (Std.ExtTreeMap.ofList [("get_project", "down")])
    let outdated := sampleTenant.withVersion 0
    (sampleReconciler.reconcile sampleTenant refusing).2.world.store =
        refusing.store.markFailed sampleTenant ∧
      (sampleReconciler.reconcile outdated refusing).1 = .error ⟨"RepoConvergence",
        .statusPersist (.provider "down") (.conflict "Tenant" "ns/t")⟩ ∧
      (sampleReconciler.reconcile sampleTenant unreachable).2.world.store = unreachable.store := by
  intro refusing unreachable outdated
  have haccess := access_sampleTenant (w := refusing) rfl rfl
  have hfails : sampleReconciler.ProvisionFails sampleTenant refusing (.provider "down") :=
    ⟨rfl, _, _, _, haccess, by decide +kernel⟩
  have houtdated : sampleReconciler.ProvisionFails outdated refusing (.provider "down") :=
    ⟨rfl, _, _, _, haccess.of_kin (.of_spec rfl rfl rfl) rfl rfl, by decide +kernel⟩
  have hreached : ∀ cause, ¬ sampleReconciler.ProvisionFails sampleTenant unreachable cause := by
    intro cause hcause
    obtain ⟨-, repo, connection, other, hother, hfailed⟩ := hcause
    obtain rfl := hother.forge_eq (serves_factory sampleSite)
    obtain rfl : sampleRepo = repo := Option.some.inj hother.template
    have hnone : (forge sampleSite).provisionFailure? sampleRepo unreachable.backend = none := by
      decide +kernel
    cases hnone.symm.trans hfailed
  refine ⟨?_, ?_, ?_⟩
  · exact (((store_of_failed_pass rfl).1 _ hfails).1 (by decide +kernel)).2
  · exact (((store_of_failed_pass rfl).1 _ houtdated).2 _ (by decide +kernel)).1
  · exact (store_of_failed_pass rfl).2 (by decide +kernel) hreached
      ⟨"RepoConvergence", .provider "down"⟩ (by decide +kernel)

end Reconciler

end ForgeSync
