import ForgeSync.Proofs.Pass.Effect
import ForgeSync.Proofs.Pass.Orphans

/-!
# Variables of a new repository

Whether variables are written is decided from what the status remembers, and whether a repository
is created from what the forge has. The two need not agree: a repository that went behind the back
of its object is created again, and its variables are not, because the status still remembers them
as applied.

Main statements: `variables_of_new_repository` and `bare_after_recreation`.
-/

namespace ForgeSync

open Forge.Memory

/-- On a repository without variables the wanted ones are all there afterwards, unless they are
remembered as applied. -/
theorem getElem?_variablesAim_empty (repo : Descriptor) (previous : Option AppliedVariables)
    (key : String) :
    (variablesAim repo previous ∅)[key]? =
      if previous = some repo.trace then none
      else repo.ciVariables.reverse.find? (·.key = key) := by
  unfold variablesAim
  split
  · simp
  · -- every name that is listed is managed, so all are written
    rw [getElem?_settled]
    split
    · rfl
    · rename_i hunmanaged
      have hunlisted : key ∉ repo.ciVariables.map (·.key) := fun hmem =>
        hunmanaged (mem_managedNames.2 (.inr (Descriptor.mem_names_trace.2 hmem)))
      rw [find?_reverse_eq_none.2 hunlisted]
      rfl

namespace Reconciler

variable {r : Reconciler State} {o : Owner} {w : World State} {site : Site}
  {declared : Descriptor} {outcome : Outcome}

/-- A pass that creates a repository and succeeds leaves it with the variables of the template, the
last one of each name, unless the status remembers these very variables: then with none. -/
theorem variables_of_new_repository (hserves : r.registry.Serves (forge site))
    (hliving : o.isDeleting = false) (htemplate : o.spec.gitTemplate = some declared)
    (habsent : declared.fullPath ∉ w.backend.projects)
    (hok : (r.reconcile o w).1 = .ok outcome) :
    ∃ project,
      (r.reconcile o w).2.world.backend.projects[declared.fullPath]? = some project ∧
      ∀ key, project.ciVariables[key]? =
        if o.status.lastAppliedCiVariables = some declared.trace then none
        else declared.ciVariables.reverse.find? (·.key = key) := by
  have hvariables := variables_of_ok hserves hliving htemplate hok
  rw [variables_eq_none habsent, Option.getD_none] at hvariables
  obtain ⟨project, hproject, hsame⟩ := Option.map_eq_some_iff.1 hvariables
  exact ⟨project, hproject, fun key => by rw [hsame, getElem?_variablesAim_empty]⟩

/-! ## A repository that is created again -/

/-- The template of a repository with one variable. -/
def variableTemplate : Descriptor where
  path := "acme"
  repoName := "r"
  ciVariables := [{ key := "A", value := "1" }]

/-- A tenant, as stored, that wants the repository. -/
def variableTenant : Owner where
  metadata := { name := "t", space := "ns", resourceVersion := 1 }
  spec.gitTemplate := some variableTemplate

/-- A world that stores the tenant, with an empty forge. -/
def variableStart : World State :=
  { sampleWorld {} with store := (({} : ObjectStore).insert variableTenant).2 }

theorem variables_of_new_repository_variableTenant :
    ∃ project, (sampleReconciler.reconcile variableTenant variableStart).2.world.backend.projects[
        "acme/r"]? = some project ∧
      project.ciVariables["A"]? = some { key := "A", value := "1" } := by
  have hok : (sampleReconciler.reconcile variableTenant variableStart).1 = .ok {} := by
    decide +kernel
  obtain ⟨project, hproject, hvariables⟩ :=
    variables_of_new_repository (serves_factory sampleSite) rfl rfl (by decide +kernel) hok
  exact ⟨project, hproject, (hvariables "A").trans (by decide +kernel)⟩

/-- The world after a pass over the tenant, when somebody has deleted its repository. -/
def forsaken : World State :=
  let w := (sampleReconciler.reconcile variableTenant variableStart).2.world
  { w with backend := (((forge sampleSite).deleteProject "acme/r").runFrom w.backend).2 }

/-- The tenant as the pass has stored it. -/
def servedTenant : Owner :=
  (forsaken.store.get? "ns" "t").getD variableTenant

/-- A new repository does not always have the variables of the template. The next pass creates the
deleted repository again and succeeds, and leaves it bare. -/
theorem bare_after_recreation :
    ¬ ∀ (r : Reconciler State) (o : Owner) (w : World State) (declared : Descriptor)
        (outcome : Outcome),
      r.registry.Serves (forge sampleSite) → w.backend.failures = ∅ → Fetched o w →
      o.isDeleting = false → o.spec.gitTemplate = some declared →
      declared.fullPath ∉ w.backend.projects → (r.reconcile o w).1 = .ok outcome →
      ∃ project,
        (r.reconcile o w).2.world.backend.projects[declared.fullPath]? = some project ∧
        ∀ key, project.ciVariables[key]? = declared.ciVariables.reverse.find? (·.key = key) := by
  intro h
  obtain ⟨hok, hbare⟩ : (sampleReconciler.reconcile servedTenant forsaken).1 = .ok {} ∧
      ((sampleReconciler.reconcile servedTenant forsaken).2.world.backend.projects[
        "acme/r"]?).map (·.ciVariables["A"]?) = some none := by
    decide +kernel
  obtain ⟨project, hproject, hvariables⟩ := h sampleReconciler servedTenant forsaken
    (completedTemplate servedTenant .retain .create variableTemplate) {}
    (serves_factory sampleSite) (by decide +kernel) ⟨by decide +kernel, by decide +kernel⟩
    (by decide +kernel) (by decide +kernel) (by decide +kernel) hok
  rw [show (sampleReconciler.reconcile servedTenant forsaken).2.world.backend.projects[
    "acme/r"]? = some project from hproject, Option.map_some, hvariables "A"] at hbare
  cases hbare

end Reconciler

end ForgeSync
