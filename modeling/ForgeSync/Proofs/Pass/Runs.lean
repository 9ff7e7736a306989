import ForgeSync.Proofs.Memory.Log
import ForgeSync.Proofs.Pass.Gate
import ForgeSync.Proofs.Pass.Storing

/-!
# Passes on fresh copies

From pass to pass the object changes, but not in what leads to its repository: name, namespace,
membership and the completed template stay. So once a pass has reached the forge, every later one
does too.

Main statements: `Completed.kin` and `Access.of_kin`.
-/

namespace ForgeSync

open Calendar (Instant)

/-! ## What leads to the repository -/

namespace Convergence

variable {σ : Type} {c : Convergence σ} {a b d : Owner}

theorem completed_congr (h : b.spec = a.spec) : c.completed b = c.completed a := by
  have htemplate : completedTemplate b c.defaultDeletionPolicy c.defaultCreationPolicy =
      completedTemplate a c.defaultDeletionPolicy c.defaultCreationPolicy := by
    funext repo
    simp only [completedTemplate, h]
  rw [completed, completed, h, htemplate]

/-- A completed template is complete. -/
theorem completed_withTemplate {repo : Descriptor} (h : c.completed a = some repo) :
    c.completed (a.withTemplate repo) = some repo := by
  obtain ⟨declared, -, rfl⟩ := Option.map_eq_some_iff.1 h
  simp [completed, completedTemplate, Owner.withTemplate]

/-- Two versions of an object that lead to the same repository in the same way. -/
structure Kin (c : Convergence σ) (a b : Owner) : Prop where
  name : b.metadata.name = a.metadata.name
  space : b.metadata.space = a.metadata.space
  membership : b.spec.membership = a.spec.membership
  completed : c.completed b = c.completed a

theorem Kin.refl (c : Convergence σ) (a : Owner) : Kin c a a :=
  ⟨rfl, rfl, rfl, rfl⟩

theorem Kin.trans (h : Kin c a b) (h' : Kin c b d) : Kin c a d :=
  ⟨h'.name.trans h.name, h'.space.trans h.space, h'.membership.trans h.membership,
    h'.completed.trans h.completed⟩

theorem Kin.symm (h : Kin c a b) : Kin c b a :=
  ⟨h.name.symm, h.space.symm, h.membership.symm, h.completed.symm⟩

theorem Kin.key (h : Kin c a b) : b.key = a.key := by
  rw [Owner.key, Owner.key, h.name, h.space]

theorem Kin.tenantRef (h : Kin c a b) : b.tenantRef = a.tenantRef := by
  rw [Owner.tenantRef, Owner.tenantRef, h.membership, h.name]

theorem Kin.of_spec (hname : b.metadata.name = a.metadata.name)
    (hspace : b.metadata.space = a.metadata.space) (hspec : b.spec = a.spec) : Kin c a b :=
  ⟨hname, hspace, by rw [hspec], completed_congr hspec⟩

theorem Access.congr {v w : World σ} {repo : Descriptor} {connection : Connection}
    {forge : Forge σ} (h : Access c a w repo connection forge) (hkin : Kin c a b)
    (hsecrets : v.secrets = w.secrets) (hnone : v.faults.getSecret = none) :
    Access c b v repo connection forge where
  template := hkin.completed.trans h.template
  tenant := hkin.tenantRef ▸ h.tenant
  secrets := hnone
  secret := by
    rw [hsecrets, hkin.space, hkin.tenantRef]
    exact h.secret
  provider := h.provider

theorem Access.of_kin {v w : World σ} {repo : Descriptor} {connection : Connection}
    {forge : Forge σ} (h : Access c a w repo connection forge) (hkin : Kin c a b)
    (hsecrets : v.secrets = w.secrets) (hfaults : v.faults = {}) :
    Access c b v repo connection forge :=
  h.congr hkin hsecrets (by rw [hfaults])

end Convergence

namespace Reconciler

variable {σ : Type} {r : Reconciler σ} {o : Owner} {w : World σ} {p q : Pass σ}

theorem kin_admitted (r : Reconciler σ) (o : Owner) : r.convergence.Kin o (r.admitted o) := by
  obtain ⟨annotations, hadmitted⟩ := admitted_annotations r o
  rw [hadmitted]
  exact .of_spec rfl rfl rfl

/-- What a complete pass stores leads to the same repository. -/
theorem Completed.kin (h : Completed r o w p q) (version : Nat) :
    r.convergence.Kin o ((r.finalized o p).object.withVersion version) := by
  obtain ⟨finalizers, hobject⟩ := finalized_finalizers r o p
  have hadmitted : r.convergence.Kin o p.object := by
    apply (kin_admitted r o).trans
    have hmetadata : p.object.metadata = (r.admitted o).metadata := h.worked.metadata
    obtain hspec | ⟨repo, hrepo, hspec⟩ := h.worked.spec
    · exact .of_spec (by rw [hmetadata]) (by rw [hmetadata]) hspec
    · have hcompleted := Convergence.completed_withTemplate hrepo
      refine ⟨by rw [hmetadata], by rw [hmetadata], by rw [hspec]; rfl, ?_⟩
      rw [Convergence.completed_congr hspec, hcompleted]
      exact hrepo.symm
  apply hadmitted.trans
  rw [hobject]
  exact .of_spec rfl rfl rfl

theorem Completed.deletion (h : Completed r o w p q) {stored : Owner}
    (hstored : q.world.store.objects[o.key]? = some stored) : stored.isDeleting = o.isDeleting := by
  obtain ⟨version, rfl⟩ := h.closed.stored stored hstored
  simp only [Owner.isDeleting, ObjectMeta.isDeleting, Owner.withVersion, Owner.mapMeta,
    h.ready.deletion]

/-- A pass on a fetched copy that did not fail is complete and asks for no other one. -/
theorem completed_of_ok (h : Fetched o w) (hok : (r.reconcile o w).1.toBool = true) :
    ∃ p q, r.reconcile o w = (.ok { requeue := false }, q) ∧ Completed r o w p q := by
  obtain hcompleted | ⟨failure, q, hrun, -⟩ := reconcile_of_fetched (r := r) h
  · exact hcompleted
  · rw [hrun] at hok
    cases hok

theorem Completed.isDeleting (h : Completed r o w p q) :
    (r.finalized o p).object.metadata.isDeleting = o.isDeleting := by
  simp only [Owner.isDeleting, ObjectMeta.isDeleting, h.ready.deletion]

/-- A complete pass on a living object leaves it stored. -/
theorem Completed.present (h : Completed r o w p q) (hliving : o.isDeleting = false) :
    ∃ version, q.world.store.objects[o.key]? =
      some ((r.finalized o p).object.withVersion version) := by
  have hreleased : ObjectStore.isReleased (r.finalized o p).object.metadata = false := by
    rw [ObjectStore.isReleased, h.isDeleting, hliving, Bool.false_and]
  obtain ⟨stored, hstored⟩ := h.closed.present hreleased
  obtain ⟨version, rfl⟩ := h.closed.stored stored hstored
  exact ⟨version, hstored⟩

/-- Whatever becomes of a pass, what is stored of the object leads to the same repository. -/
theorem kin_of_stored (h : Fetched o w) {stored : Owner}
    (hstored : (r.reconcile o w).2.world.store.objects[o.key]? = some stored) :
    r.convergence.Kin o stored ∧ stored.isDeleting = o.isDeleting := by
  obtain ⟨p, q, hrun, hcompleted⟩ | ⟨failure, q, hrun, hstore | ⟨-, hstore⟩⟩ :=
    reconcile_of_fetched (r := r) h
  · rw [hrun] at hstored
    obtain ⟨version, rfl⟩ := hcompleted.closed.stored stored hstored
    exact ⟨hcompleted.kin version, hcompleted.deletion hstored⟩
  · rw [hrun, hstore, h.stored] at hstored
    obtain rfl := Option.some.inj hstored
    exact ⟨.refl _ _, rfl⟩
  · rw [hrun, hstore, ObjectStore.markFailed, Std.ExtTreeMap.getElem?_insert_self] at hstored
    obtain rfl := Option.some.inj hstored
    exact ⟨.of_spec rfl rfl rfl, rfl⟩

/-- A failed pass leaves the finalizers in the store as they were. -/
theorem finalizers_of_error (h : Fetched o w) {failure : StepFailure}
    (herror : (r.reconcile o w).1 = .error failure) :
    ∃ stored, (r.reconcile o w).2.world.store.objects[o.key]? = some stored ∧
      stored.metadata.finalizers = o.metadata.finalizers := by
  obtain ⟨p, q, hrun, -⟩ | ⟨failure, q, hrun, hstore | ⟨-, hstore⟩⟩ :=
    reconcile_of_fetched (r := r) h
  · rw [hrun] at herror
    cases herror
  · exact ⟨o, by rw [hrun, hstore, h.stored], rfl⟩
  · refine ⟨(o.withPhase .failed).withVersion (o.metadata.resourceVersion + 1), ?_, rfl⟩
    rw [hrun, hstore, ObjectStore.markFailed, Std.ExtTreeMap.getElem?_insert_self]

/-- Secrets and failures of the world are the same after a pass. -/
theorem along_reconcile (r : Reconciler σ) (o : Owner) (w : World σ) :
    Pass.Along (fun _ _ => True) (r.opening o w) (r.reconcile o w).2 :=
  moves_reconcile ⟨fun _ => trivial, fun _ _ => trivial⟩ r o w fun _ _ _ _ _ _ _ _ => trivial

end Reconciler

/-! ## A forge that stays the same -/

theorem Convergence.Access.forge_eq {σ : Type} {c : Convergence σ} {o : Owner} {w : World σ}
    {repo : Descriptor} {connection : Connection} {forge other : Forge σ}
    (h : Access c o w repo connection other) (hserves : c.registry.Serves forge) :
    other = forge := by
  obtain ⟨factory, hresolve, hconnect⟩ := h.provider
  exact hserves factory (Registry.mem_of_resolve hresolve) connection other hconnect

namespace Reconciler

variable {σ : Type} {R : σ → σ → Prop} {r : Reconciler σ} {o : Owner} {w : World σ}

/-- A pass over an object that leads to a repository, on the one forge of its registry. -/
theorem moves_reconcile_of_serves (hR : Act.Chains R) {forge : Forge σ} {repo : Descriptor}
    (hserves : r.registry.Serves forge) (htemplate : r.convergence.completed o = some repo)
    (h : forge.Respects (Convergence.passCalls repo o.isDeleting) R) :
    R w.backend (r.reconcile o w).2.world.backend :=
  (moves_reconcile hR r o w fun _ repo' connection other haccess => by
    obtain rfl := haccess.forge_eq hserves
    have hrepo := haccess.template
    rw [(kin_admitted r o).completed, htemplate] at hrepo
    obtain rfl := Option.some.inj hrepo
    exact h).backend

/-- Without a way to the forge a pass leaves the backend alone. -/
theorem backend_of_no_access (h : ∀ repo connection forge,
      ¬ r.convergence.Access (r.admitted o) w repo connection forge) :
    (r.reconcile o w).2.world.backend = w.backend :=
  ((moves_reconcile (R := fun a b => b = a) ⟨fun _ => rfl, fun h h' => h'.trans h⟩ r o w
    fun _ repo connection forge haccess => (h repo connection forge haccess).elim).backend)

end Reconciler

end ForgeSync
