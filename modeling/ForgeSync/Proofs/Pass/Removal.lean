import ForgeSync.Proofs.Pass.Failing
import ForgeSync.Proofs.Pass.PinnedPolicy

/-!
# The last pass over an object

The pass over an object whose deletion was requested deals with the repository as the policy says,
takes the finalizer off, and hands the object back to the store, which drops it unless another
finalizer holds it. Where nothing fails, one pass is enough.

Main statements: `ends_retire_disposed` is what becomes of the repository, `closing_of_same_status`
what becomes of the object, and `removal_completes` puts them together.
-/

namespace ForgeSync

/-! ## What is left of a repository -/

namespace Forge.Memory

/-- A repository that only can be read any more. -/
def Project.archive (project : Project) : Project :=
  { project with repository := { project.repository with archived := true } }

/-- What is left of a repository that went as a policy says. -/
def leftOf (policy : DeletionPolicy) (project? : Option Project) : Option Project :=
  match policy with
  | .delete => none
  | .archive => project?.map Project.archive
  | .retain => project?
  | .unknown => project?

/-- From one state to the next the repository at a path went as a policy says, and no other one
did. -/
structure Disposed (policy : DeletionPolicy) (path : String) (s t : State) : Prop where
  here : t.projects[path]? = leftOf policy s.projects[path]?
  others : ∀ other, other ≠ path → t.projects[other]? = s.projects[other]?

variable {s t u : State} {site : Site} {repo : Descriptor} {policy : DeletionPolicy}
  {path : String}

theorem Disposed.of_reads (hreads : Reads s t) (h : Disposed policy path t u) :
    Disposed policy path s u := by
  obtain ⟨hhere, hothers⟩ := h
  rw [hreads.projects] at hhere
  exact ⟨hhere, fun other hother => by rw [hothers other hother, hreads.projects]⟩

theorem disposed_of_reads (hreads : Reads s t)
    (hsame : leftOf policy s.projects[path]? = s.projects[path]?) : Disposed policy path s t :=
  ⟨by rw [hsame, hreads.projects], fun _ _ => by rw [hreads.projects]⟩

theorem disposed_of_absent (hreads : Reads s t) (habsent : s.projects[path]? = none) :
    Disposed policy path s t := by
  apply disposed_of_reads hreads
  rw [habsent]
  cases policy <;> rfl

theorem disposed_erase (path : String) (s : State) :
    Disposed .delete path s { s with projects := s.projects.erase path } where
  here := Std.ExtTreeMap.getElem?_erase_self
  others other hother := by simp [Std.ExtTreeMap.getElem?_erase, hother.symm]

theorem disposed_put {project : Project} (hfound : s.projects[path]? = some project) :
    Disposed .archive path s (s.put path project.archive) where
  here := by simp [leftOf, hfound]
  others other hother := by simp [projects_put, Std.ExtTreeMap.getElem?_insert, hother.symm]

theorem Project.archive_of_archived {project : Project}
    (h : project.repository.archived = true) : project.archive = project := by
  rw [Project.archive, ← h]

/-! ## How it is removed -/

theorem ends_answer_of_no_failures {α : Type} {call : Forge.Call}
    {body : State → Except Failure α × State} {onOk : α → State → Prop}
    {onError : Failure → State → Prop} (hfailures : s.failures = ∅)
    (hbody : (Act.ofFunction body).Ends (s.record call) onOk onError) :
    (answer call body).Ends s onOk onError :=
  ends_answer (fun hfailing => absurd hfailures hfailing) hbody

theorem ends_deleteRepository_disposed (hfailures : s.failures = ∅) :
    ((forge site).deleteRepository repo).Ends s
      (fun _ t => Disposed .delete repo.fullPath s t) fun _ _ => False := by
  have hreads := reads_record s (.deleteProject repo.fullPath)
  unfold Forge.deleteRepository
  rw [Act.ends_bind, Act.ends_attempt]
  apply ends_answer_of_no_failures hfailures
  unfold Act.Ends deleteProject
  rw [Act.runFrom_ofFunction]
  by_cases hmem : repo.fullPath ∈ (s.record (.deleteProject repo.fullPath)).projects
  · rw [if_pos hmem]
    exact (disposed_erase _ _).of_reads hreads
  · have habsent : s.projects[repo.fullPath]? = none := by simpa using hmem
    rw [if_neg hmem]
    exact disposed_of_absent hreads habsent

theorem ends_archiveProject_disposed {project : Project} (hfailures : s.failures = ∅)
    (hfound : s.projects[path]? = some project) :
    ((forge site).archiveProject path).Ends s (fun _ t => Disposed .archive path s t)
      fun _ _ => False := by
  refine ends_answer_of_no_failures hfailures (ends_onProject (s := s.record _) hfound ?_ nofun)
  intro _ after hafter
  obtain rfl : project.archive = after := congrArg Prod.snd (Except.ok.inj hafter)
  exact (disposed_put (s := s.record _) hfound).of_reads (reads_record s _)

theorem ends_archiveRepository_disposed (hfailures : s.failures = ∅) :
    ((forge site).archiveRepository repo).Ends s
      (fun _ t => Disposed .archive repo.fullPath s t) fun _ _ => False := by
  have hreads := reads_record s (.getProject repo.fullPath)
  unfold Forge.archiveRepository
  rw [Act.ends_bind]
  refine ends_getProject.mono ?_ fun _ _ hfailed => hfailed.1 hfailures
  intro remote t hend
  obtain ⟨rfl, rfl⟩ := hend
  cases hfound : s.projects[repo.fullPath]? with
  | none => exact disposed_of_absent hreads hfound
  | some project =>
    simp only [Option.map_some]
    cases harchived : project.repository.archived with
    | true =>
      apply disposed_of_reads hreads
      rw [hfound, leftOf, Option.map_some, Project.archive_of_archived harchived]
    | false =>
      rw [if_neg Bool.false_ne_true]
      exact (ends_archiveProject_disposed (s := s.record _) hfailures hfound).mono
        (fun _ _ hdisposed => hdisposed.of_reads hreads) fun _ _ => id

theorem ends_removeRepository_disposed (hfailures : s.failures = ∅) :
    ((forge site).removeRepository repo).Ends s
      (fun _ t => Disposed repo.effectiveDeletionPolicy repo.fullPath s t) fun _ _ => False := by
  have hretained : Reads s s := reads_chains.refl s
  unfold Forge.removeRepository
  cases repo.effectiveDeletionPolicy with
  | delete => exact ends_deleteRepository_disposed hfailures
  | archive => exact ends_archiveRepository_disposed hfailures
  | retain => exact disposed_of_reads hretained rfl
  | unknown => exact disposed_of_reads hretained rfl

/-- Without failures a repository goes as its policy says, whether or not it is there. -/
theorem ends_retire_disposed (hfailures : s.failures = ∅) :
    (Convergence.retire (forge site) repo).Ends s
      (fun _ t => Disposed repo.effectiveDeletionPolicy repo.fullPath s t) fun _ _ => False := by
  have hreads := reads_record s (.getProject repo.fullPath)
  unfold Convergence.retire
  rw [Act.ends_bind]
  refine ends_getProject.mono ?_ fun _ _ hfailed => hfailed.1 hfailures
  intro remote t hend
  obtain ⟨rfl, rfl⟩ := hend
  cases hfound : s.projects[repo.fullPath]? with
  | none => exact disposed_of_absent hreads hfound
  | some project =>
    exact (ends_removeRepository_disposed (by exact hfailures)).mono
      (fun _ _ hdisposed => hdisposed.of_reads hreads) fun _ _ => id

end Forge.Memory

/-! ## What is left of the object -/

namespace Lifecycle

variable {σ : Type} {o : Owner} {p : Pass σ} {rules : Rules}

theorem runFrom_storeStatus_of_same (h : p.object.status = rules.initial.status) :
    (storeStatus rules).runFrom p = (.ok (), p) := by
  simp [storeStatus, Act.runFrom_bind, h]

/-- The store after a pass that has changed metadata or spec of an object, but not its status. -/
def storeAfter (o : Owner) (p : Pass σ) : ObjectStore where
  objects :=
    if ObjectStore.isReleased p.object.metadata then p.world.store.objects.erase o.key
    else p.world.store.objects.insert o.key (nextObject o p)
  writes := p.world.store.writes + 1

/-- The closing of a pass that has changed the metadata of an object, but not its status. -/
theorem closing_of_same_status (h : Ready o p) (hinitial : rules.initial = o)
    (hstatus : p.object.status = o.status) (hchanged : p.object.metadata ≠ o.metadata) :
    runSteps rules [updateObject] p =
      (.ok {}, { p with
        object := p.object.withVersion (o.metadata.resourceVersion + 1)
        world := { p.world with store := storeAfter o p } }) := by
  obtain ⟨_, q, hrun, hq⟩ := (ends_storeObject h hinitial).exists_ok
  rw [if_neg fun hsame => hchanged hsame.1] at hq
  have hsame : q.object.status = rules.initial.status := by
    rw [hq, hinitial]
    exact hstatus
  have hstore : ((do storeObject rules; storeStatus rules : Act (Pass σ) Unit)).runFrom p =
      (.ok (), q) := by
    rw [Act.runFrom_bind_of_ok hrun, runFrom_storeStatus_of_same hsame]
  have hstep : (updateObject.run rules).runFrom p = (.ok (.stop false), q) := by
    simp only [updateObject]
    rw [Act.runFrom_bind, Act.runFrom_attempt, hstore]
    rfl
  rw [runSteps_of_stop hstep, hq]
  rfl

end Lifecycle

namespace Reconciler

open Forge.Memory

section Release

variable {σ : Type} (r : Reconciler σ) (o : Owner)

/-- An object without its finalizer, with the template filled in, as the next version. -/
def releasedObject (repo : Descriptor) : Owner :=
  { o.withTemplate repo with
    metadata := { o.metadata with
      resourceVersion := o.metadata.resourceVersion + 1
      finalizers := o.metadata.finalizers.filter (· ≠ r.expectedFinalizer) } }

variable {r o}

theorem finalize_of_deleted (m : ObjectMeta) :
    Lifecycle.finalize (r.rules o) true m = m.removeFinalizer r.expectedFinalizer := by
  unfold Lifecycle.finalize expectedFinalizer rules
  cases r.settings.finalizer <;> rfl

theorem isReleased_removeFinalizer_iff {m : ObjectMeta} {finalizer : String}
    (hdeleting : m.isDeleting = true) :
    ObjectStore.isReleased (m.removeFinalizer finalizer) = true ↔
      ∀ f ∈ m.finalizers, f = finalizer := by
  have hsame : (m.removeFinalizer finalizer).isDeleting = true := hdeleting
  rw [ObjectStore.isReleased, hsame]
  simp [ObjectMeta.removeFinalizer]

theorem removeFinalizer_ne {m : ObjectMeta} {finalizer : String}
    (hmem : finalizer ∈ m.finalizers) : m.removeFinalizer finalizer ≠ m := by
  intro hsame
  have hgone := ObjectMeta.hasFinalizer_removeFinalizer m finalizer
  rw [hsame] at hgone
  simp [ObjectMeta.hasFinalizer, hmem] at hgone

end Release

variable {r : Reconciler State} {o : Owner} {w : World State} {site : Site}
  {repo declared : Descriptor} {connection : Connection}

/-- The work of a pass over an object that is being deleted is the removal of its repository. -/
theorem work_of_deleting (hdeleting : o.isDeleting = true)
    (haccess : r.convergence.Access o w repo connection (forge site))
    (hfailures : w.backend.failures = ∅) :
    ∃ t, r.convergence.converge.runFrom (r.opening o w) =
        (.ok (), Pass.onBackend.set t (Convergence.templated (r.opening o w) repo)) ∧
      Disposed repo.effectiveDeletionPolicy repo.fullPath w.backend t := by
  have hadmitted : r.admitted o = o := admitted_of_isDeleting r o hdeleting
  have hopening : r.convergence.Access (r.opening o w).object (r.opening o w).world repo connection
      (forge site) := by
    simpa [opening, hadmitted] using haccess
  have hretired : (Convergence.retire (forge site) repo).Ends w.backend _ _ :=
    ends_retire_disposed hfailures
  obtain ⟨_, t, hrun, hdisposed⟩ := hretired.exists_ok
  refine ⟨t, ?_, hdisposed⟩
  rw [Convergence.converge_of_access hopening,
    Convergence.convergeOn_of_deleted (by exact hdeleting), Act.runFrom_within]
  simp only [Pass.onBackend, Convergence.templated, opening, hrun]

/-- One pass completes the deletion of an object that carries its finalizer and is not protected:
the repository goes as the policy says, no other one does, and the object is gone from the store
unless another finalizer holds it. -/
theorem removal_completes (hfetched : Fetched o w)
    (hdeleting : o.metadata.deletionTimestamp.isSome = true)
    (hfinalizer : r.expectedFinalizer ∈ o.metadata.finalizers) (hunprotected : r.Unprotected o)
    (hdeclared : o.spec.gitTemplate = some declared)
    (haccess : r.convergence.Access o w repo connection (forge site))
    (hfailures : w.backend.failures = ∅) :
    ∃ p, r.reconcile o w = (.ok { requeue := false }, p) ∧
      Disposed (declared.deletionPolicy.getD (r.policyInForce o)) declared.fullPath w.backend
        p.world.backend ∧
      p.world.store.objects[o.key]? =
        if ∀ f ∈ o.metadata.finalizers, f = r.expectedFinalizer then none
        else some (r.releasedObject o repo) := by
  have hdeleting' : o.isDeleting = true := hdeleting
  obtain ⟨t, hwork, hdisposed⟩ := work_of_deleting hdeleting' haccess hfailures
  have hworked := (Convergence.ends_converge (holds_opening (r := r) hfetched)).of_ok hwork
  have hready := ready_finalized hfetched hworked
  have hobject : (r.finalized o (Pass.onBackend.set t
      (Convergence.templated (r.opening o w) repo))).object =
      { o.withTemplate repo with metadata := o.metadata.removeFinalizer r.expectedFinalizer } := by
    simp only [finalized, Pass.onBackend, Convergence.templated, opening, hdeleting',
      admitted_of_isDeleting r o hdeleting', finalize_of_deleted, Owner.mapMeta]
    rfl
  have hallowed : Lifecycle.isAllowed (r.rules o) o = true :=
    isAllowed_iff.2 ⟨hfinalizer, hunprotected⟩
  have hclosing := Lifecycle.closing_of_same_status hready
    (show (r.rules o).initial = o from rfl) (by rw [hobject]; rfl)
    (by rw [hobject]; exact removeFinalizer_ne hfinalizer)
  have hrepo := Option.some.inj ((completed_of_template hdeclared).symm.trans haccess.template)
  have hpath : repo.fullPath = declared.fullPath := by rw [← hrepo]; rfl
  have hpolicy : repo.effectiveDeletionPolicy =
      declared.deletionPolicy.getD (r.policyInForce o) := by rw [← hrepo]; rfl
  rw [hpath, hpolicy] at hdisposed
  rw [reconcile_of_admitted r o w fun _ => hallowed, hwork]
  refine ⟨_, hclosing, hdisposed, ?_⟩
  simp only [Lifecycle.storeAfter, hobject]
  by_cases hall : ∀ f ∈ o.metadata.finalizers, f = r.expectedFinalizer
  · rw [if_pos hall, if_pos ((isReleased_removeFinalizer_iff hdeleting).2 hall)]
    exact Std.ExtTreeMap.getElem?_erase_self
  · rw [if_neg hall, if_neg (mt (isReleased_removeFinalizer_iff hdeleting).1 hall)]
    rw [Std.ExtTreeMap.getElem?_insert_self, Lifecycle.nextObject, hobject]
    rfl

/-- A tenant whose repository is archived with it, and that somebody else holds as well. -/
def sampleRetiree : Owner where
  metadata :=
    { name := "t", space := "ns", resourceVersion := 3, deletionTimestamp := some ⟨0, 0⟩
      finalizers := [defaultFinalizerName, "team/hold", defaultFinalizerName]
      annotations := Std.ExtTreeMap.ofList [(protectionKey, "off")] }
  spec :=
    { deletionPolicy := some .archive
      gitTemplate := some { path := "acme", repoName := "r" } }

/-- A world that stores the tenant, with its repository and another one. -/
def sampleArchive : World State :=
  let backend := (({} : State).seedProject sampleSite "acme/r").seedProject sampleSite "acme/s"
  { sampleWorld backend with
    store := (({} : ObjectStore).insert (sampleRetiree.withVersion 0)).2 }

theorem removal_completes_sampleRetiree :
    let o := sampleRetiree.withVersion 1
    ∃ p, sampleReconciler.reconcile o sampleArchive = (.ok { requeue := false }, p) ∧
      p.world.backend.projects["acme/r"]?.map (·.repository.archived) = some true ∧
      p.world.backend.projects["acme/s"]?.map (·.repository.archived) = some false ∧
      p.world.store.objects["ns/t"]?.map (·.metadata.finalizers) = some ["team/hold"] := by
  intro o
  have haccess : sampleReconciler.convergence.Access o sampleArchive
      (completedTemplate o .retain .create { path := "acme", repoName := "r" })
      ⟨"memory://git.example", "x", none⟩ (forge sampleSite) :=
    { template := rfl
      tenant := by decide +kernel
      secrets := rfl
      secret := ⟨Std.ExtTreeMap.ofList [("endpoint", "memory://git.example"), ("token", "x")],
        by decide +kernel, by decide +kernel⟩
      provider := ⟨factory sampleSite, resolve_factory (by decide +kernel), rfl⟩ }
  obtain ⟨p, hrun, hdisposed, hstored⟩ := removal_completes (r := sampleReconciler)
    (w := sampleArchive) ⟨by decide +kernel, rfl⟩ rfl (by decide +kernel)
    (.inr ⟨rfl, by decide +kernel⟩) rfl haccess rfl
  have hhere : p.world.backend.projects["acme/r"]? = _ := hdisposed.here
  have hother := hdisposed.others "acme/s" (by decide)
  refine ⟨p, hrun, ?_, ?_, ?_⟩
  · rw [hhere]
    decide +kernel
  · rw [hother]
    decide +kernel
  · rw [show p.world.store.objects["ns/t"]? = _ from hstored]
    decide +kernel

end Reconciler

end ForgeSync
