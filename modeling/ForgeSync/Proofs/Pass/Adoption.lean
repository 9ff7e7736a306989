import ForgeSync.Proofs.Pass.Undisturbed

/-!
# Creation and adoption

A repository that a pass creates is the one that the pass makes of a bare repository that was there
before. The two ways differ in calls and in order: a creation sets the description and adds every
key, and the files follow; an adoption commits the files and then compares what it finds. In the end
only the recorded calls tell them apart.

Main statement: `creation_eq_adoption`.
-/

namespace ForgeSync

open Forge.Memory

/-! ## Actions that go the same way from another state -/

namespace Act

variable {σ α β : Type} {f : σ → σ} {act : Act σ α}

/-- From a state changed by `f` the action comes to the same, changed by `f`. -/
def Commutes (f : σ → σ) (act : Act σ α) : Prop :=
  ∀ s, act.runFrom (f s) = ((act.runFrom s).1, f (act.runFrom s).2)

theorem commutes_pure (f : σ → σ) (a : α) : Commutes f (pure a : Act σ α) :=
  fun _ => rfl

theorem commutes_throw (f : σ → σ) (failure : Failure) : Commutes f (throw failure : Act σ α) :=
  fun _ => rfl

theorem Commutes.bind {next : α → Act σ β} (h : Commutes f act) (hnext : ∀ a, Commutes f (next a)) :
    Commutes f (act >>= next) := by
  intro s
  rw [runFrom_bind, runFrom_bind, h s]
  rcases act.runFrom s with ⟨_ | a, after⟩
  · rfl
  · exact hnext a after

theorem Commutes.attempt (h : Commutes f act) : Commutes f act.attempt := by
  intro s
  rw [runFrom_attempt, runFrom_attempt, h s]

/-- What is read of the state may depend on the change, as long as what follows does not. -/
theorem commutes_get_bind {next : σ → Act σ β} (hsame : ∀ s, next (f s) = next s)
    (hnext : ∀ s, Commutes f (next s)) : Commutes f (get >>= next) := by
  intro s
  rw [runFrom_bind, runFrom_bind, runFrom_get, runFrom_get]
  dsimp only
  rw [hsame]
  exact hnext s s

end Act

/-! ## A closing that does not look at the forge -/

namespace Lifecycle

variable {σ : Type} (rules : Rules) (backend : σ)

theorem commutes_noteVersion (stored : Owner) :
    Act.Commutes (Pass.onBackend.set backend) (noteVersion stored : Act (Pass σ) Unit) :=
  fun _ => rfl

theorem commutes_guarded {α : Type} {fault : Faults → Option Failure}
    {body : World σ → Except Failure α × World σ}
    (hbody : ∀ w, body { w with backend } = ((body w).1, { (body w).2 with backend })) :
    Act.Commutes (Pass.onBackend.set backend) ((World.guarded fault body).within Pass.onWorld) := by
  intro p
  rw [Act.runFrom_within, Act.runFrom_within, World.guarded, Act.runFrom_ofFunction,
    Act.runFrom_ofFunction]
  simp only [Pass.onWorld, Pass.onBackend, hbody]
  cases fault p.world.faults <;> rfl

theorem commutes_storeObject :
    Act.Commutes (Pass.onBackend.set backend) (storeObject rules : Act (Pass σ) Unit) := by
  refine Act.commutes_get_bind (fun _ => rfl) fun p => ?_
  dsimp only
  split
  · exact (commutes_guarded backend fun _ => rfl).bind (commutes_noteVersion backend)
  · exact Act.commutes_pure _ ()

theorem commutes_storeStatus :
    Act.Commutes (Pass.onBackend.set backend) (storeStatus rules : Act (Pass σ) Unit) := by
  refine Act.commutes_get_bind (fun _ => rfl) fun p => ?_
  split
  · refine (commutes_guarded backend fun _ => rfl).attempt.bind fun written => ?_
    cases written with
    | ok stored => exact commutes_noteVersion backend stored
    | error failure =>
        dsimp only
        split
        · exact Act.commutes_pure _ ()
        · exact Act.commutes_throw _ failure
  · exact Act.commutes_pure _ ()

theorem commutes_updateObject :
    Act.Commutes (Pass.onBackend.set backend) ((updateObject (σ := σ)).run rules) := by
  refine Act.Commutes.bind ((commutes_storeObject rules backend).bind fun _ =>
    commutes_storeStatus rules backend).attempt fun outcome => ?_
  cases outcome with
  | ok => exact Act.commutes_pure _ _
  | error failure =>
      dsimp only
      split
      · exact Act.commutes_pure _ _
      · exact Act.commutes_throw _ failure

/-- The closing stores the same whatever stands behind the forges. -/
theorem closing_set (p : Pass σ) :
    runSteps rules [updateObject] (Pass.onBackend.set backend p) =
      ((runSteps rules [updateObject] p).1,
        Pass.onBackend.set backend (runSteps rules [updateObject] p).2) := by
  rw [runSteps, runSteps, commutes_updateObject rules backend p]
  rcases (updateObject.run rules).runFrom p with ⟨_ | _ | _, after⟩ <;> rfl

/-- Nor does it change what stands there. -/
theorem backend_closing (p : Pass σ) :
    (runSteps rules [updateObject] p).2.world.backend = p.world.backend := by
  have hset := closing_set rules p.world.backend p
  rw [show Pass.onBackend.set p.world.backend p = p from rfl] at hset
  rw [hset]
  rfl

end Lifecycle

namespace Reconciler

variable {σ : Type} (r : Reconciler σ) (o : Owner)

/-- The rest of a pass behind the work on the repository. -/
def concluded : Except Failure Unit × Pass σ → Except StepFailure Outcome × Pass σ
  | (.error cause, after) => (.error ⟨"RepoConvergence", cause⟩, after)
  | (.ok (), after) => runSteps (r.rules o) [Lifecycle.updateObject] (r.finalized o after)

theorem concluded_of_error (cause : Failure) (after : Pass σ) :
    r.concluded o (.error cause, after) = (.error ⟨"RepoConvergence", cause⟩, after) := by
  rw [concluded]

theorem concluded_of_ok (after : Pass σ) :
    r.concluded o (.ok (), after) =
      runSteps (r.rules o) [Lifecycle.updateObject] (r.finalized o after) := by
  rw [concluded]

theorem backend_concluded (work : Except Failure Unit × Pass σ) :
    (r.concluded o work).2.world.backend = work.2.world.backend := by
  obtain ⟨_ | _, after⟩ := work
  · rw [concluded_of_error]
  · rw [concluded_of_ok, Lifecycle.backend_closing, finalized_world]

/-- Work that differs in what stands behind the forges is concluded in one way. -/
theorem concluded_congr {first second : Except Failure Unit × Pass σ} {backend : σ}
    (houtcome : second.1 = first.1) (hworld : second.2.world = { first.2.world with backend })
    (hok : first.1 = .ok () → second.2 = Pass.onBackend.set backend first.2) :
    (r.concluded o second).1 = (r.concluded o first).1 ∧
      (r.concluded o second).2.world = { (r.concluded o first).2.world with backend } := by
  obtain ⟨outcome, after⟩ := first
  obtain ⟨outcome', after'⟩ := second
  obtain rfl : outcome' = outcome := houtcome
  cases outcome' with
  | error failure =>
      rw [concluded_of_error, concluded_of_error]
      exact ⟨rfl, hworld⟩
  | ok =>
      obtain rfl : after' = Pass.onBackend.set backend after := hok rfl
      have hclosing := Lifecycle.closing_set (r.rules o) backend (r.finalized o after)
      have hset : r.finalized o (Pass.onBackend.set backend after) =
        Pass.onBackend.set backend (r.finalized o after) := rfl
      rw [concluded_of_ok, concluded_of_ok, hset, hclosing]
      dsimp only [Pass.onBackend]
      exact ⟨rfl, rfl⟩

theorem reconcile_eq_concluded (w : World σ)
    (hadmitted : o.isDeleting = true → Lifecycle.isAllowed (r.rules o) o = true) :
    r.reconcile o w =
      r.concluded o (r.convergence.converge.runFrom (r.opening o w)) := by
  rw [reconcile_of_admitted r o w hadmitted]
  rcases r.convergence.converge.runFrom (r.opening o w) with ⟨_ | _, after⟩
  · rw [concluded_of_error]
  · rw [concluded_of_ok]

end Reconciler

/-! ## Bare repositories -/

namespace Forge.Memory

theorem becomes_seedProject (site : Site) (path : String) (s : State) :
    Becomes path (some (newProject site (s.lastId + 1) path "")) 1 s (s.seedProject site path) where
  here := getElem?_put_self _ _ _
  others := (becomes_put path _ s.takeId).others
  lastId := rfl
  halted := rfl
  failures := rfl

theorem Reads.eq_calls {s t : State} (h : Reads s t) : t = { s with calls := t.calls } := by
  rw [← h.projects, ← h.lastId, ← h.failures, ← h.halted]

/-- Whether files are committed is not a matter of keys and description. -/
theorem described_committed (repo : Descriptor) (project : Project)
    (deployKeys : List RemoteDeployKey) :
    described repo { committed repo project with deployKeys } =
      committed repo (described repo { project with deployKeys }) := by
  unfold committed described
  by_cases hplan : filePlan repo.templateFiles project.files = []
  · simp only [if_pos hplan]
  · simp only [if_neg hplan]

/-- What a bare repository becomes is what is created. -/
theorem described_bare (site : Site) (repo : Descriptor) (last : UInt64) :
    described repo { committed repo (newProject site (last + 1) repo.fullPath "") with
        deployKeys := numbered (last + 1) repo.deployKeys.toList } =
      committed repo (createdProject site repo last) := by
  have hcreated : createdProject site repo last =
      described repo { newProject site (last + 1) repo.fullPath "" with
        deployKeys := numbered (last + 1) repo.deployKeys.toList } := by
    simp only [createdProject, described, newProject]
  rw [hcreated, described_committed]

end Forge.Memory

namespace Convergence

variable {c : Convergence State} {site : Site} {connection : Connection} {repo : Descriptor}
  {p : Pass State}

/-- Where the work ends in one way on two forges that differ in their logs, it ends on the same
repository, object and vault. -/
theorem Ended.congr {q : Pass State} {uid : UInt64} {project : Project} {t u : State}
    {outcome outcome' : Except Failure Unit} {after after' : Pass State}
    (h : Ended c site connection repo p uid project t outcome after)
    (h' : Ended c site connection repo q uid project u outcome' after')
    (hq : q = Pass.onBackend.set q.world.backend p) :
    outcome' = outcome ∧ after'.world = { after.world with backend := u } ∧
      after.world.backend = t ∧ (outcome = .ok () → after' = Pass.onBackend.set u after) := by
  rw [hq] at h'
  unfold Ended at h h'
  dsimp only [Pass.onBackend] at h'
  rw [show World.vaultWith { p.world with backend := q.world.backend } = p.world.vaultWith from rfl]
    at h'
  cases hvault : p.world.vaultWith repo.fullPath ((tokenToMint repo c.now
    p.object.status.accessTokenUid uid project.tokens).map storedToken) with
  | error failure =>
      rw [hvault] at h h'
      obtain ⟨rfl, hworld⟩ := h
      obtain ⟨rfl, hworld'⟩ := h'
      exact ⟨rfl, by rw [hworld, hworld'], by rw [hworld], nofun⟩
  | ok vault =>
      rw [hvault] at h h'
      obtain ⟨rfl, rfl⟩ := h
      obtain ⟨rfl, rfl⟩ := h'
      exact ⟨rfl, rfl, rfl, fun _ => rfl⟩

/-- The work on a missing repository, and the work on it as a bare one. -/
theorem convergeOn_seeded (c : Convergence State) (site : Site) (connection : Connection)
    (hliving : p.deleted = false)
    (hpolicy : repo.effectiveCreationPolicy = .create) (hfailures : p.world.backend.failures = ∅)
    (habsent : p.world.backend.projects[repo.fullPath]? = none) :
    let seeded := Pass.onBackend.set (p.world.backend.seedProject site repo.fullPath) p
    let created := (c.convergeOn connection (forge site) repo).runFrom p
    let adopted := (c.convergeOn connection (forge site) repo).runFrom seeded
    ∃ u, Reads created.2.world.backend u ∧ repo.fullPath ∈ u.projects ∧ adopted.1 = created.1 ∧
      adopted.2.world = { created.2.world with backend := u } ∧
      (created.1 = .ok () → adopted.2 = Pass.onBackend.set u created.2) := by
  intro seeded created adopted
  obtain ⟨t, hcreated, hended⟩ := runFrom_convergeOn_of_missing c site connection hliving hfailures
    habsent (by rw [hpolicy]; decide)
  have hseeded : Becomes repo.fullPath _ 1 p.world.backend seeded.world.backend :=
    becomes_seedProject site repo.fullPath _
  have hcalm : Calm repo.fullPath _ seeded.world.backend := .of_becomes hfailures hseeded
  have hupdate : ∀ t, Becomes repo.fullPath
      (some (committed repo (newProject site (p.world.backend.lastId + 1) repo.fullPath ""))) 0
      seeded.world.backend t →
      Yields repo.fullPath repo.deployKeys.size ((forge site).updateRepository repo) t
        (committed repo (createdProject site repo p.world.backend.lastId)) fun _ _ => True := by
    intro t ht
    have hlast : t.lastId = p.world.backend.lastId + 1 := by
      rw [ht.lastId, hseeded.lastId]
      simp
    have hyields : Yields repo.fullPath _ ((forge site).updateRepository repo) t _ _ :=
      yields_updateRepository_of_bare (.of_becomes hcalm.failures ht) deployKeys_committed
    rwa [hlast, described_bare] at hyields
  obtain ⟨u, hadopted, hended'⟩ := runFrom_convergeOn_of_found c site connection (p := seeded)
    hliving hcalm (.inl rfl) hupdate
  have huid : seeded.world.backend.lastId + UInt64.ofNat repo.deployKeys.size =
      p.world.backend.lastId + UInt64.ofNat (1 + repo.deployKeys.size) := by
    rw [hseeded.lastId, UInt64.ofNat_add, UInt64.add_assoc]
  rw [huid] at hadopted hended'
  obtain ⟨houtcome, hworld, hbackend, hok⟩ := hended.congr hended' rfl
  have hreads : Reads t u := hcreated.reads ((hseeded.trans hadopted).cast (Nat.add_assoc ..).symm)
  refine ⟨u, by rwa [hbackend], ?_, houtcome, hworld, hok⟩
  rw [← Std.ExtTreeMap.isSome_getElem?_iff_mem, hadopted.here]
  rfl

end Convergence

namespace Reconciler

variable {r : Reconciler State} {site : Site} {connection : Connection} {repo : Descriptor}
  {o : Owner} {w : World State}

/-! ## Main statement -/

/-- A pass that creates a repository comes to what it comes to on a bare repository at the same
path, but for the calls that are recorded. -/
theorem creation_eq_adoption (hliving : o.isDeleting = false)
    (haccess : r.convergence.Access o w repo connection (forge site))
    (hpolicy : repo.effectiveCreationPolicy = .create) (hfailures : w.backend.failures = ∅)
    (habsent : repo.fullPath ∉ w.backend.projects) :
    let created := r.reconcile o w
    let adopted := r.reconcile o
      { w with backend := w.backend.seedProject site repo.fullPath }
    adopted.1 = created.1 ∧ repo.fullPath ∈ created.2.world.backend.projects ∧
      ∃ calls, adopted.2.world =
        { created.2.world with backend := { created.2.world.backend with calls } } := by
  intro created adopted
  let p : Pass State := Convergence.templated (r.opening o w) repo
  let seeded := Pass.onBackend.set (w.backend.seedProject site repo.fullPath) p
  have hpass : ∀ v : World State, v.secrets = w.secrets → v.faults = w.faults →
      r.reconcile o v = r.concluded o
        ((r.convergence.convergeOn connection (forge site) repo).runFrom
          (Convergence.templated (r.opening o v) repo)) := by
    intro v hsecrets hfaults
    rw [← Convergence.converge_of_access
      (haccess.congr (kin_admitted r o) hsecrets (hfaults ▸ haccess.secrets))]
    exact r.reconcile_eq_concluded o v (by simp [hliving])
  obtain ⟨u, hreads, hthere, houtcome, hworld, hok⟩ := Convergence.convergeOn_seeded
    (p := p) r.convergence site connection hliving hpolicy hfailures
    (Std.ExtTreeMap.getElem?_eq_none habsent)
  have hcreated : created = r.concluded o _ := hpass w rfl rfl
  have hadopted : adopted = r.concluded o _ := hpass _ rfl rfl
  have hbackend := r.backend_concluded o
    ((r.convergence.convergeOn connection (forge site) repo).runFrom p)
  obtain ⟨hsame, hconcluded⟩ := r.concluded_congr o houtcome hworld hok
  rw [hcreated, hadopted, hbackend]
  refine ⟨hsame, ?_, u.calls, ?_⟩
  · rwa [← hreads.projects]
  · rw [← hreads.eq_calls]
    exact hconcluded

/-- The repository of the tenant has a deploy key, which is added in either way. -/
theorem creation_eq_adoption_sampleTenant :
    let bare := ({} : State).seedProject sampleSite "acme/r"
    let created := sampleReconciler.reconcile sampleTenant sampleStart
    let adopted := sampleReconciler.reconcile sampleTenant { sampleStart with backend := bare }
    adopted.1 = created.1 ∧ "acme/r" ∈ created.2.world.backend.projects ∧
      ∃ calls, adopted.2.world =
        { created.2.world with backend := { created.2.world.backend with calls } } := by
  have hpath : sampleRepo.fullPath = "acme/r" := by decide +kernel
  have hsame := creation_eq_adoption (r := sampleReconciler) (o := sampleTenant) (w := sampleStart)
    rfl (access_sampleTenant rfl rfl) (by decide +kernel) rfl (by decide +kernel)
  rw [hpath] at hsame
  exact hsame

end Reconciler

end ForgeSync
