import ForgeSync.Proofs.Pass.Result

/-!
# Where a pass on a living object arrives

A complete pass on a living object with a template leaves its repository at its aim, and stores the
object under the kept metadata, with the completed template and a status that remembers what was
done. A pass that fails leaves of the object in the store at most the phase changed, and does not
move the aim.

Main statements: `reconcile_living` and `arrival_arrival`.
-/

namespace ForgeSync

open Forge.Memory

namespace Reconciler

/-! ## Metadata -/

section Kept

variable {σ : Type} (r : Reconciler σ)

/-- The annotations of a living object after a pass. -/
@[irreducible] def keptAnnotations (annotations : Table String) : Table String :=
  if r.settings.deletionProtection ∧ protectionKey ∉ annotations then
    annotations.insert protectionKey "true"
  else annotations

/-- The finalizers of a living object after a pass. -/
@[irreducible] def keptFinalizers (finalizers : List String) : List String :=
  match r.settings.finalizer with
  | some name => if name ∈ finalizers then finalizers else finalizers ++ [name]
  | none => finalizers.filter (· ≠ defaultFinalizerName)

theorem keptAnnotations_idem (annotations : Table String) :
    r.keptAnnotations (r.keptAnnotations annotations) = r.keptAnnotations annotations := by
  unfold keptAnnotations
  by_cases hmissing : r.settings.deletionProtection ∧ protectionKey ∉ annotations
  · rw [if_pos hmissing, if_neg (by simp)]
  · rw [if_neg hmissing, if_neg hmissing]

theorem keptFinalizers_idem (finalizers : List String) :
    r.keptFinalizers (r.keptFinalizers finalizers) = r.keptFinalizers finalizers := by
  unfold keptFinalizers
  cases r.settings.finalizer with
  | none => simp
  | some name =>
      by_cases hthere : name ∈ finalizers
      · simp only [hthere, if_true]
      · simp only [hthere, if_false]
        rw [if_pos (by simp)]

/-- The metadata of a living object after a pass, but for the version. -/
def keptMeta (m : ObjectMeta) : ObjectMeta :=
  { m with
    annotations := r.keptAnnotations m.annotations
    finalizers := r.keptFinalizers m.finalizers }

theorem keptMeta_idem (m : ObjectMeta) (version : Nat) :
    r.keptMeta { r.keptMeta m with resourceVersion := version } =
      { r.keptMeta m with resourceVersion := version } := by
  simp only [keptMeta, keptAnnotations_idem, keptFinalizers_idem]

variable {r} {o : Owner} {w : World σ} {p q : Pass σ}

theorem admitted_of_living (hliving : o.isDeleting = false) :
    r.admitted o =
      o.mapMeta fun m => { m with annotations := r.keptAnnotations m.annotations } := by
  unfold admitted keptAnnotations Lifecycle.protect
  rw [hliving, Bool.not_false, Bool.and_true]
  cases r.settings.deletionProtection with
  | false => simp [Owner.mapMeta]
  | true =>
    by_cases hthere : protectionKey ∈ o.metadata.annotations <;>
      simp [hthere, Owner.mapMeta]

theorem finalize_rules (o : Owner) (m : ObjectMeta) :
    Lifecycle.finalize (r.rules o) false m =
      { m with finalizers := r.keptFinalizers m.finalizers } := by
  unfold Lifecycle.finalize keptFinalizers
  cases hfinalizer : r.settings.finalizer with
  | none => simp [rules, hfinalizer, ObjectMeta.removeFinalizer]
  | some name =>
      by_cases hthere : name ∈ m.finalizers <;>
        simp [rules, hfinalizer, ObjectMeta.addFinalizer, ObjectMeta.hasFinalizer, hthere]

/-- After a complete pass on a living object the metadata is kept. -/
theorem Completed.metadata (h : Completed r o w p q) (hliving : o.isDeleting = false) :
    (r.finalized o p).object.metadata = r.keptMeta o.metadata := by
  have hdeleted : p.deleted = false := h.worked.deleted.trans hliving
  have hopening : p.object.metadata = (r.admitted o).metadata := h.worked.metadata
  dsimp only [finalized, Owner.mapMeta]
  rw [hdeleted, hopening, finalize_rules, admitted_of_living hliving]
  rfl

/-! ## The object -/

variable (r) in
/-- The object that a complete pass stores, but for the version. -/
def arrival (repo : Descriptor) (o : Owner) (status : RepoStatus) : Owner where
  metadata := r.keptMeta o.metadata
  spec := (o.withTemplate repo).spec
  status

/-- An object that has arrived stays where it is, but for its status. -/
theorem arrival_arrival (repo : Descriptor) (o : Owner) (first second : RepoStatus)
    (version : Nat) :
    r.arrival repo ((r.arrival repo o first).withVersion version) second =
      (r.arrival repo o second).withVersion version := by
  have hmetadata := keptMeta_idem r o.metadata version
  simp only [arrival, Owner.withVersion, Owner.mapMeta, Owner.withTemplate, hmetadata]

end Kept

/-! ## Living objects -/

variable {r : Reconciler State} {site : Site} {connection : Connection} {repo : Descriptor}
  {o : Owner} {w : World State} {q : Pass State}

/-- What a pass on a living object comes to if it succeeds. -/
structure Arrived (r : Reconciler State) (site : Site) (connection : Connection)
    (repo : Descriptor) (o : Owner) (w : World State) (q : Pass State) (next : RepoStatus)
    (after : Project) : Prop where
  access : r.convergence.Access o w repo connection (forge site)
  mayStart : MayStart repo w.backend
  landed : r.convergence.Landed site connection repo o.status next w.backend q.world.backend after
  stored : ∃ version, q.world.store.objects[o.key]? =
    some ((r.arrival repo o next).withVersion version)
  unchanged : r.arrival repo o next = o → q.world.store = w.store

/-- What a pass on a living object comes to if it fails. -/
structure Stranded (r : Reconciler State) (site : Site) (repo : Descriptor) (o : Owner)
    (w : World State) (q : Pass State) : Prop where
  cause : (∃ connection, r.convergence.Access o w repo connection (forge site)) →
    MayStart repo w.backend → w.backend.failures ≠ ∅
  halted : r.convergence.Halted site repo o.status w.backend q.world.backend
  stored : ∃ phase version, q.world.store.objects[o.key]? =
    some ((o.withPhase phase).withVersion version)

theorem marked_of_store (hfetched : Fetched o w)
    (hstore : q.world.store = w.store ∨
      o.isDeleting = false ∧ q.world.store = w.store.markFailed o) :
    ∃ phase version, q.world.store.objects[o.key]? =
      some ((o.withPhase phase).withVersion version) := by
  obtain hstore | ⟨-, hstore⟩ := hstore
  · exact ⟨o.status.phase, o.metadata.resourceVersion, by rw [hstore, hfetched.stored]; rfl⟩
  · refine ⟨.failed, o.metadata.resourceVersion + 1, ?_⟩
    rw [hstore, ObjectStore.markFailed, Std.ExtTreeMap.getElem?_insert_self]

theorem arrived_of_landed {p : Pass State} {after : Project} (hliving : o.isDeleting = false)
    (hcompleted : Completed r o w p q)
    (haccess : r.convergence.Access o w repo connection (forge site))
    (hmay : MayStart repo w.backend) (hspec : p.object.spec = (o.withTemplate repo).spec)
    (hlanded : r.convergence.Landed site connection repo o.status p.object.status w.backend
      p.world.backend after) :
    Arrived r site connection repo o w q p.object.status after := by
  have hobject : (r.finalized o p).object = r.arrival repo o p.object.status := by
    rw [arrival, ← hcompleted.metadata hliving, ← hspec]
    dsimp only [finalized, Owner.mapMeta]
  have hbackend : q.world.backend = p.world.backend := by
    rw [hcompleted.closed.world, finalized_world]
  refine ⟨haccess, hmay, hbackend.symm ▸ hlanded, ?_, fun hsame => ?_⟩
  · obtain ⟨version, hstored⟩ := hcompleted.present hliving
    rw [hobject] at hstored
    exact ⟨version, hstored⟩
  · rw [hcompleted.closed.unchanged (hobject.trans hsame), finalized_world]
    exact hcompleted.worked.store

theorem completed_of_template {declared : Descriptor} (h : o.spec.gitTemplate = some declared) :
    r.convergence.completed o = some (completedTemplate o r.settings.defaultDeletionPolicy
      r.settings.defaultCreationPolicy declared) := by
  rw [Convergence.completed, h]
  rfl

/-- Without a way to the forge the work on a living object with a template fails at once. -/
theorem ends_converge_of_no_access (hserves : r.registry.Serves (forge site))
    (hliving : o.isDeleting = false) (htemplate : r.convergence.completed o = some repo)
    (hnone : ¬ ∃ connection, r.convergence.Access (r.admitted o) w repo connection (forge site)) :
    r.convergence.converge.Ends (r.opening o w) (fun _ _ => False) fun _ p => p.world = w := by
  have hcompleted := (kin_admitted r o).completed.trans htemplate
  have hstrayed := Convergence.strayed_of_no_access (c := r.convergence) (p := r.opening o w)
    fun repo' connection other hreached => by
      obtain rfl := hreached.forge_eq hserves
      obtain rfl := Option.some.inj (hcompleted.symm.trans hreached.template)
      exact hnone ⟨connection, hreached⟩
  unfold Act.Ends
  rcases hrun : r.convergence.converge.runFrom (r.opening o w) with ⟨failure | _, p⟩ <;>
    rw [hrun] at hstrayed
  · exact hstrayed.world
  · obtain hdeleted | ⟨hmissing, -⟩ := hstrayed.ok rfl
    · exact Bool.false_ne_true (hliving.symm.trans hdeleted)
    · rw [Convergence.completed, show (r.admitted o).spec.gitTemplate = none from hmissing]
        at hcompleted
      cases hcompleted

/-- A pass on a living object with a template arrives, or it has a reason to fail. -/
theorem reconcile_living (hserves : r.registry.Serves (forge site)) (hfetched : Fetched o w)
    (hliving : o.isDeleting = false) (htemplate : r.convergence.completed o = some repo)
    (hfit : Fit site repo w.backend)
    (hroom : w.backend.lastId.toNat + (repo.deployKeys.size + 2) < 2 ^ 64) :
    (∃ q connection next after, r.reconcile o w = (.ok {}, q) ∧
      Arrived r site connection repo o w q next after) ∨
    ∃ failure q, r.reconcile o w = (.error failure, q) ∧ Stranded r site repo o w q := by
  have hallowed : o.isDeleting = true → Lifecycle.isAllowed (r.rules o) o = true := by
    simp [hliving]
  have hkin := kin_admitted r o
  have hwork := Convergence.ends_converge (c := r.convergence) (holds_opening (r := r) hfetched)
  by_cases haccess : ∃ connection, r.convergence.Access o w repo connection (forge site)
  · obtain ⟨connection, haccess⟩ := haccess
    have hopening := Convergence.converge_of_access (p := r.opening o w)
      (haccess.of_kin hkin rfl hfetched.faults)
    have hstart : (Convergence.templated (r.opening o w) repo).object.status = o.status ∧
        (Convergence.templated (r.opening o w) repo).object.spec = (o.withTemplate repo).spec := by
      rw [Convergence.templated, opening, admitted_of_living hliving]
      exact ⟨rfl, rfl⟩
    have hholds : (Convergence.templated (r.opening o w) repo).Holds o := by
      obtain ⟨hcurrent, hphase⟩ := holds_opening (r := r) hfetched
      exact ⟨⟨hcurrent.faults, hcurrent.stored, hcurrent.key, hcurrent.version⟩, hphase⟩
    have hkeeps : (r.convergence.convergeOn connection (forge site) repo).Ends
        (Convergence.templated (r.opening o w) repo) _ _ := Convergence.ends_convergeOn hholds
    have hends := (Convergence.ends_convergeOn_living (c := r.convergence)
      (p := Convergence.templated (r.opening o w) repo) hliving hfit hroom
        hfetched.faults).and hkeeps
    rcases hrun : r.convergence.converge.runFrom (r.opening o w) with ⟨failure | _, p⟩
    · obtain ⟨⟨hcause, hhalted⟩, -⟩ := hends.of_error (hopening ▸ hrun)
      rw [hstart.1] at hhalted
      rw [reconcile_of_admitted r o w hallowed, hrun]
      refine .inr ⟨_, p, rfl, fun _ hmay => ?_, hhalted, marked_of_store hfetched ?_⟩
      · exact hcause.resolve_right fun hnot => hnot hmay
      · exact hwork.of_error hrun
    · obtain ⟨⟨hmay, after, hlanded⟩, hkeeps⟩ := hends.of_ok (hopening ▸ hrun)
      rw [hstart.1] at hlanded
      obtain ⟨q, hreconcile, hcompleted⟩ := completed_of_work hfetched hallowed hrun
      exact .inl ⟨q, connection, p.object.status, after, hreconcile, arrived_of_landed hliving
        hcompleted haccess hmay (hkeeps.spec.trans hstart.2) hlanded⟩
  · have hends := ends_converge_of_no_access hserves hliving htemplate fun hreached =>
      haccess (hreached.imp fun _ haccess => haccess.of_kin hkin.symm rfl hfetched.faults)
    rcases hrun : r.convergence.converge.runFrom (r.opening o w) with ⟨failure | _, p⟩
    · have hworld : p.world = w := hends.of_error hrun
      rw [reconcile_of_admitted r o w hallowed, hrun]
      refine .inr ⟨_, p, rfl, fun hreached => (haccess hreached).elim, ?_,
        marked_of_store hfetched (hwork.of_error hrun)⟩
      rw [hworld]
      exact ⟨.refl _ _, hfit.hosts, .refl ..⟩
    · exact (hends.of_ok hrun).elim

end Reconciler

end ForgeSync
