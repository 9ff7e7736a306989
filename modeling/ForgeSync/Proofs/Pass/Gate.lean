import ForgeSync.Forge.MemoryFactory
import ForgeSync.Proofs.Memory.Log
import ForgeSync.Proofs.Pass.Footprint

/-!
# The gate before destructive calls

When a pass deletes or archives a repository: only for an object that is being deleted, that carries
its finalizer, that nothing protects, and whose policy says so. The log of the forge in memory shows
it, because what a whole pass adds to the log stays within the calls that it can make.

Main statement: `removal_gate`.
-/

namespace ForgeSync

/-! ## Registries with one forge -/

/-- Whatever factory is chosen, it connects to one forge. -/
def Registry.Serves {σ : Type} (registry : Registry σ) (forge : Forge σ) : Prop :=
  ∀ factory ∈ registry.factories, ∀ connection other,
    factory.connect connection = .ok other → other = forge

theorem Registry.mem_of_resolve {σ : Type} {registry : Registry σ} {repoType endpoint : String}
    {factory : Factory σ} (h : registry.resolve repoType endpoint = .ok factory) :
    factory ∈ registry.factories := by
  unfold resolve at h
  split at h <;> split at h
  · cases h
    exact List.mem_of_find?_eq_some ‹_›
  · cases h
  · cases h
    exact List.mem_of_find?_eq_some ‹_›
  · cases h

theorem Forge.Memory.serves_factory (site : Site) :
    (Registry.ofList [factory site]).Serves (forge site) := by
  intro chosen hchosen connection other hother
  simp only [Registry.ofList, List.foldl_cons, List.foldl_nil, Registry.register,
    List.filter_nil, List.nil_append, List.mem_singleton] at hchosen
  subst hchosen
  exact (Except.ok.inj hother).symm

namespace Reconciler

open Forge.Memory (State)

/-! ## Who may be removed -/

section Rights

variable {σ : Type} (r : Reconciler σ) (o : Owner)

/-- The finalizer that has to be in place: the one in use, or else the default one. -/
def expectedFinalizer : String :=
  r.settings.finalizer.getD defaultFinalizerName

/-- Nothing protects an object: the override says so, or in its absence the annotation does not
say otherwise. -/
def Unprotected : Prop :=
  r.protection = some false ∨
    r.protection = none ∧ ∀ value, o.metadata.annotations[protectionKey]? = some value →
      parseProtection value = false

/-- What has to hold of an object before the repository at a path goes as a policy says. -/
structure MayRemove (policy : DeletionPolicy) (path : String) : Prop where
  requested : o.metadata.deletionTimestamp.isSome
  finalizer : r.expectedFinalizer ∈ o.metadata.finalizers
  unprotected : r.Unprotected o
  template : ∃ repo, o.spec.gitTemplate = some repo ∧ repo.fullPath = path ∧
    repo.deletionPolicy.getD (o.spec.deletionPolicy.getD r.settings.defaultDeletionPolicy) = policy

variable {r o}

theorem isProtected_eq_false_iff :
    Lifecycle.isProtected (r.rules o) o = false ↔ r.Unprotected o := by
  unfold Lifecycle.isProtected Unprotected
  cases h : r.protection with
  | some decision => simp [rules, h]
  | none =>
      cases o.metadata.annotations[protectionKey]? with
      | none => simp [rules, h]
      | some value => simp [rules, h]

theorem isAllowed_iff :
    Lifecycle.isAllowed (r.rules o) o = true ↔
      r.expectedFinalizer ∈ o.metadata.finalizers ∧ r.Unprotected o := by
  rw [Lifecycle.isAllowed_iff, isProtected_eq_false_iff]
  simp [ObjectMeta.hasFinalizer, Lifecycle.requiredFinalizer, expectedFinalizer, rules]

end Rights

/-! ## The gate -/

variable {r : Reconciler State} {o : Owner} {w : World State}

/-- A call of the removal of a repository, with what it takes to make it. -/
def GatedCall (r : Reconciler State) (o : Owner) (call : Forge.Call) : Prop :=
  (∀ path, call = .deleteProject path → r.MayRemove o .delete path) ∧
    (∀ path, call = .archiveProject path → r.MayRemove o .archive path) ∧
    (o.isDeleting = true → call.isMutating = true →
      (∃ path, call = .deleteProject path) ∨ ∃ path, call = .archiveProject path)

theorem gatedCall_of_passCalls {repo : Descriptor} {call : Forge.Call}
    (hallowed : o.isDeleting = true → Lifecycle.isAllowed (r.rules o) o = true)
    (htemplate : r.convergence.completed (r.admitted o) = some repo)
    (hcall : Convergence.passCalls repo o.isDeleting call) : r.GatedCall o call := by
  rcases hcall with rfl | hcall
  · exact ⟨nofun, nofun, fun _ hmutating => by simp [Forge.Call.isMutating] at hmutating⟩
  cases hdeleting : o.isDeleting with
  | false =>
      simp only [hdeleting, Bool.false_eq_true, if_false] at hcall
      refine ⟨?_, ?_, fun h => by simp [hdeleting] at h⟩ <;> rintro path rfl <;>
        simp [Convergence.livingCalls, Forge.commitCalls, Forge.creationCalls, Forge.updateCalls,
          Forge.variableCalls, Forge.tokenCalls] at hcall
  | true =>
      simp only [hdeleting, if_true] at hcall
      obtain ⟨hfinalizer, hunprotected⟩ := isAllowed_iff.1 (hallowed hdeleting)
      rw [admitted_of_isDeleting r o hdeleting] at htemplate
      obtain ⟨declared, hdeclared, rfl⟩ := Option.map_eq_some_iff.1 htemplate
      have hmay : ∀ policy path, path = declared.fullPath ∧
          (completedTemplate o r.settings.defaultDeletionPolicy r.settings.defaultCreationPolicy
            declared).effectiveDeletionPolicy = policy → r.MayRemove o policy path := by
        intro policy path hsame
        obtain ⟨hpath, hpolicy⟩ := hsame
        exact ⟨hdeleting, hfinalizer, hunprotected, declared, hdeclared, hpath.symm, by
          simpa [completedTemplate, Descriptor.effectiveDeletionPolicy] using hpolicy⟩
      refine ⟨?_, ?_, fun _ hmutating => ?_⟩
      · intro path heq
        subst heq
        exact hmay _ _ hcall
      · intro path heq
        subst heq
        exact hmay _ _ hcall
      · cases call <;> simp [Forge.removalCalls, Forge.Call.isMutating] at hcall hmutating ⊢

/-- What a pass adds to the log is gated. Without its finalizer, or under protection, an object
that is being deleted is turned away before any call or write. -/
theorem removal_gate {site : Forge.Memory.Site}
    (hserves : r.registry.Serves (Forge.Memory.forge site)) :
    (∃ new, (r.reconcile o w).2.world.backend.calls = w.backend.calls ++ new ∧
      (∀ path, .deleteProject path ∈ new → r.MayRemove o .delete path) ∧
      (∀ path, .archiveProject path ∈ new → r.MayRemove o .archive path) ∧
      (o.metadata.deletionTimestamp.isSome → ∀ call ∈ new, call.isMutating = true →
        (∃ path, call = .deleteProject path) ∨ ∃ path, call = .archiveProject path)) ∧
    (o.metadata.deletionTimestamp.isSome →
      ¬ (r.expectedFinalizer ∈ o.metadata.finalizers ∧ r.Unprotected o) →
      r.reconcile o w = (.error ⟨"HandleDeletion", .finalizerNotRemoved⟩,
        { object := o, deleted := true, world := w })) := by
  constructor
  · obtain ⟨new, hnew, hgated⟩ :=
      (moves_reconcile (Forge.Memory.Logs.chains (r.GatedCall o)) r o w
        fun hallowed repo connection forge haccess => by
          obtain ⟨factory, hresolve, hconnect⟩ := haccess.provider
          obtain rfl := hserves factory (Registry.mem_of_resolve hresolve) connection forge hconnect
          exact (Forge.Memory.respects_logs site (r.GatedCall o)).mono fun call hcall =>
            gatedCall_of_passCalls hallowed haccess.template hcall).backend
    exact ⟨new, hnew, fun path hmem => (hgated _ hmem).1 path rfl,
      fun path hmem => (hgated _ hmem).2.1 path rfl,
      fun hdeleting call hmem => (hgated call hmem).2.2 hdeleting⟩
  · intro hdeleting hrefused
    exact reconcile_of_refused r o w hdeleting
      (Bool.eq_false_iff.2 fun hallowed => hrefused (isAllowed_iff.1 hallowed))

/-! ## A removal that passes the gate -/

/-- A forge in memory. -/
def sampleSite : Forge.Memory.Site :=
  ⟨"memory://git.example", 20⟩

/-- A reconciler for the forge, with default settings. -/
def sampleReconciler : Reconciler State where
  settings := {}
  registry := .ofList [Forge.Memory.factory sampleSite]
  now := ⟨0, 0⟩

/-- The secret of the tenant `ns/t` leads to a forge in a state. -/
def sampleWorld (backend : State) : World State where
  secrets := ({} : SecretSource).insert "ns" "t"
    (Std.ExtTreeMap.ofList [("endpoint", "memory://git.example"), ("token", "x")])
  backend

/-- A tenant whose deletion was requested and whose template says that its repository goes. -/
def sampleLeaver : Owner where
  metadata :=
    { name := "t", space := "ns", deletionTimestamp := some ⟨0, 0⟩
      finalizers := [defaultFinalizerName] }
  spec.gitTemplate := some { path := "acme", repoName := "r", deletionPolicy := some .delete }

theorem removal_gate_sampleLeaver :
    let w := sampleWorld (({} : State).seedProject sampleSite "acme/r")
    (sampleReconciler.reconcile sampleLeaver w).2.world.backend.calls =
        [.getProject "acme/r", .deleteProject "acme/r"] ∧
      sampleReconciler.MayRemove sampleLeaver .delete "acme/r" := by
  intro w
  have hcalls : (sampleReconciler.reconcile sampleLeaver w).2.world.backend.calls =
      [.getProject "acme/r", .deleteProject "acme/r"] := by decide +kernel
  obtain ⟨⟨new, hnew, hdelete, -, -⟩, -⟩ :=
    removal_gate (r := sampleReconciler) (o := sampleLeaver) (w := w)
      (Forge.Memory.serves_factory sampleSite)
  have hnone : w.backend.calls = [] := by decide +kernel
  rw [hcalls, hnone, List.nil_append] at hnew
  exact ⟨hcalls, hdelete "acme/r" (by simp [← hnew])⟩

end Reconciler

end ForgeSync
