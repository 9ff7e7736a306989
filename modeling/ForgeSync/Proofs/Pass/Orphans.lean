import ForgeSync.Proofs.Memory.Calls
import ForgeSync.Proofs.Pass.Runs

/-!
# Repositories that outlive their object

The finalizer keeps an object in the store until its repository was dealt with, but it is stored at
the end of a pass, and the repository is created before. A pass that fails in between leaves a
repository without the finalizer on its object; if the deletion of the object is requested then,
the object is gone and the repository stays. A repository that one of the passes of a run has
created is safe from this exactly if that pass or a later one succeeded, or the finalizer was there
before.

Main statements: `orphan_after_failed_creation` and `created_is_guarded_iff`.
-/

namespace ForgeSync

open Calendar (Instant)
open Forge.Memory

/-- The world with other failures awaiting the calls of the forge. -/
def World.withFailures (failures : Table String) (w : World State) : World State :=
  { w with backend := { w.backend with failures } }

namespace Reconciler

/-! ## Runs over one object -/

/-- A pass over the object that is stored under a name, under failures of the forge. Without such
an object there is none. -/
def freshPass (r : Reconciler State) (space name : String) (failures : Table String)
    (w : World State) : Option (Except StepFailure Outcome) × World State :=
  match w.store.get? space name with
  | none => (none, w)
  | some o =>
    let run := r.reconcile o (w.withFailures failures)
    (some run.1, run.2.world)

/-- What happens to an object from outside. -/
inductive Event where
  /-- A pass at a time, under failures of the forge. -/
  | pass (now : Instant) (failures : Table String)
  /-- A request at a time to delete the object. -/
  | deletion (now : Instant)

variable (r : Reconciler State) (space name : String)

/-- The world after an event. -/
def after (w : World State) : Event → World State
  | .pass now failures => (freshPass { r with now } space name failures w).2
  | .deletion now =>
    match w.store.requestDeletion now space name with
    | .ok store => { w with store }
    | .error _ => w

/-- The world after a run. -/
def run (w : World State) (events : List Event) : World State :=
  events.foldl (r.after space name) w

/-- Whether an event is a pass that does not fail. -/
def succeeds (w : World State) : Event → Bool
  | .pass now failures =>
    ((freshPass { r with now } space name failures w).1).any fun result => result.toBool
  | .deletion _ => false

/-- Whether a run has a pass that does not fail. -/
def anySucceeds : World State → List Event → Bool
  | _, [] => false
  | w, event :: rest =>
    r.succeeds space name w event || anySucceeds (r.after space name w event) rest

theorem run_append (w : World State) (first rest : List Event) :
    r.run space name w (first ++ rest) = r.run space name (r.run space name w first) rest :=
  List.foldl_append

end Reconciler

namespace Reconciler

open ObjectStore (finalizers_markDeleted isDeleting_markDeleted)

variable {r : Reconciler State} {o : Owner} {w v : World State} {repo : Descriptor}
  {site : Site} {finalizer : String}

/-! ## What stays the same in a run -/

/-- A world that a run over an object has led to. -/
structure Tended (r : Reconciler State) (o : Owner) (w v : World State) : Prop where
  faults : v.faults = {}
  secrets : v.secrets = w.secrets
  stored : ∀ stored, v.store.objects[o.key]? = some stored → r.convergence.Kin o stored

theorem Tended.start (h : Fetched o w) : Tended r o w w :=
  ⟨h.faults, rfl, fun stored hstored => by
    obtain rfl := Option.some.inj (h.stored.symm.trans hstored)
    exact .refl _ _⟩

theorem Tended.fetched (h : Tended r o w v) {stored : Owner}
    (hstored : v.store.objects[o.key]? = some stored) (failures : Table String) :
    Fetched stored (v.withFailures failures) :=
  ⟨(congrArg (v.store.objects[·]?) (h.stored stored hstored).key).trans hstored, h.faults⟩

theorem freshPass_of_stored {stored : Owner} (h : v.store.objects[o.key]? = some stored)
    (failures : Table String) :
    r.freshPass o.metadata.space o.metadata.name failures v =
      (some (r.reconcile stored (v.withFailures failures)).1,
        (r.reconcile stored (v.withFailures failures)).2.world) := by
  rw [freshPass, show v.store.get? o.metadata.space o.metadata.name = some stored from h]

theorem freshPass_of_absent (h : v.store.objects[o.key]? = none) (failures : Table String) :
    r.freshPass o.metadata.space o.metadata.name failures v = (none, v) := by
  rw [freshPass, show v.store.get? o.metadata.space o.metadata.name = none from h]

theorem kin_markDeleted (time : Instant) (stored : Owner) :
    r.convergence.Kin stored (ObjectStore.markDeleted time stored) := by
  unfold ObjectStore.markDeleted
  split <;> exact .of_spec rfl rfl rfl

/-- A request for deletion takes the object away or marks it. -/
theorem after_deletion (r : Reconciler State) (o : Owner) (v : World State) (time : Instant) :
    (v.store.objects[o.key]? = none ∧
      r.after o.metadata.space o.metadata.name v (.deletion time) = v) ∨
    ∃ stored objects, v.store.objects[o.key]? = some stored ∧
      r.after o.metadata.space o.metadata.name v (.deletion time) =
        { v with store := { v.store with objects } } ∧
      (stored.metadata.finalizers = [] ∧ objects[o.key]? = none ∨
        objects[o.key]? = some (ObjectStore.markDeleted time stored)) := by
  simp only [after, ObjectStore.requestDeletion]
  cases hstored : v.store.objects[o.key]? with
  | none =>
      rw [show v.store.objects[storeKey o.metadata.space o.metadata.name]? = none from hstored]
      exact .inl ⟨rfl, rfl⟩
  | some stored =>
      rw [show v.store.objects[storeKey o.metadata.space o.metadata.name]? = some stored
        from hstored]
      refine .inr ⟨stored, _, rfl, rfl, ?_⟩
      rw [finalizers_markDeleted]
      split
      · exact .inl ⟨List.isEmpty_iff.1 ‹_›, Std.ExtTreeMap.getElem?_erase_self⟩
      · exact .inr Std.ExtTreeMap.getElem?_insert_self

theorem Tended.after (h : Tended r o w v) (event : Event) :
    Tended r o w (r.after o.metadata.space o.metadata.name v event) := by
  cases event with
  | pass time failures =>
      simp only [Reconciler.after]
      cases hstored : v.store.objects[o.key]? with
      | none =>
          rw [freshPass_of_absent hstored]
          exact h
      | some stored =>
          have hkin := h.stored stored hstored
          have hfetched := h.fetched hstored failures
          have halong := along_reconcile { r with now := time } stored (v.withFailures failures)
          rw [freshPass_of_stored hstored]
          refine ⟨halong.faults.trans h.faults, halong.secrets.trans h.secrets,
            fun next hnext => ?_⟩
          rw [← hkin.key] at hnext
          obtain ⟨hnext, -⟩ := kin_of_stored (r := { r with now := time }) hfetched hnext
          exact hkin.trans ⟨hnext.name, hnext.space, hnext.membership, hnext.completed⟩
  | deletion time =>
      obtain ⟨-, hsame⟩ | ⟨stored, objects, hstored, hafter, hobjects⟩ := after_deletion r o v time
      · rw [hsame]
        exact h
      · rw [hafter]
        refine ⟨h.faults, h.secrets, fun next hnext => ?_⟩
        obtain ⟨-, hnone⟩ | hmarked := hobjects
        · cases hnone.symm.trans hnext
        · obtain rfl := Option.some.inj (hmarked.symm.trans hnext)
          exact (h.stored stored hstored).trans (kin_markDeleted time stored)

theorem Tended.run (h : Tended r o w v) (events : List Event) :
    Tended r o w (r.run o.metadata.space o.metadata.name v events) := by
  induction events generalizing v with
  | nil => exact h
  | cons event rest ih => exact ih (h.after event)

/-! ## What a pass does to the repository and its object -/

/-- The object is stored with a finalizer. -/
def Guarded (finalizer key : String) (v : World State) : Prop :=
  ∃ stored, v.store.objects[key]? = some stored ∧ finalizer ∈ stored.metadata.finalizers

theorem guarded_iff {key : String} {stored : Owner} (h : v.store.objects[key]? = some stored) :
    Guarded finalizer key v ↔ finalizer ∈ stored.metadata.finalizers :=
  ⟨fun ⟨_, hother, hmem⟩ => Option.some.inj (h.symm.trans hother) ▸ hmem,
    fun hmem => ⟨stored, h, hmem⟩⟩

theorem not_guarded_of_absent {key : String} (h : v.store.objects[key]? = none) :
    ¬ Guarded finalizer key v :=
  fun ⟨_, hstored, _⟩ => by cases h.symm.trans hstored

/-- A pass on a living object that succeeds leaves the finalizer on it. -/
theorem guarded_of_ok (h : Fetched o v) (hliving : o.isDeleting = false)
    (hfinalizer : r.settings.finalizer = some finalizer)
    (hok : (r.reconcile o v).1.toBool = true) :
    Guarded finalizer o.key (r.reconcile o v).2.world := by
  obtain ⟨p, q, hrun, hcompleted⟩ | ⟨failure, q, hrun, -⟩ := reconcile_of_fetched (r := r) h
  · obtain ⟨version, hstored⟩ := hcompleted.present hliving
    rw [hrun]
    refine ⟨_, hstored, ?_⟩
    have hdeleted : p.deleted = false := hcompleted.worked.deleted.trans hliving
    simp only [finalized, Owner.withVersion, Owner.mapMeta, Lifecycle.finalize, rules, hfinalizer,
      hdeleted, Bool.false_eq_true, if_false]
    have hadded := ObjectMeta.hasFinalizer_addFinalizer p.object.metadata finalizer
    simpa [ObjectMeta.hasFinalizer] using hadded
  · rw [hrun] at hok
    cases hok

/-- A pass that fails leaves the finalizer as it was. -/
theorem guarded_iff_of_error (h : Fetched o v) (herror : (r.reconcile o v).1.toBool = false) :
    Guarded finalizer o.key (r.reconcile o v).2.world ↔ finalizer ∈ o.metadata.finalizers := by
  rcases hresult : (r.reconcile o v).1 with failure | outcome
  · obtain ⟨stored, hstored, hsame⟩ := finalizers_of_error h hresult
    rw [guarded_iff hstored, hsame]
  · rw [hresult] at herror
    cases herror

/-- A living object keeps its repository. -/
theorem stays_of_living (hserves : r.registry.Serves (forge site))
    (htemplate : r.convergence.completed o = some repo) (hliving : o.isDeleting = false) :
    Stays repo.fullPath v.backend (r.reconcile o v).2.world.backend := by
  refine moves_reconcile_of_serves (stays_chains repo.fullPath) hserves htemplate
    ((respects_stays site repo.fullPath).mono ?_)
  intro call hcall path heq
  subst heq
  simp [Convergence.passCalls, hliving, Convergence.livingCalls, Forge.commitCalls,
    Forge.creationCalls, Forge.updateCalls, Forge.variableCalls, Forge.tokenCalls] at hcall

/-- An object that is being deleted gets no repository. -/
theorem staysAway_of_deleting (hserves : r.registry.Serves (forge site))
    (htemplate : r.convergence.completed o = some repo) (hdeleting : o.isDeleting = true) :
    StaysAway repo.fullPath v.backend (r.reconcile o v).2.world.backend := by
  refine moves_reconcile_of_serves (staysAway_chains repo.fullPath) hserves htemplate
    ((respects_staysAway site repo.fullPath).mono ?_)
  intro call hcall space name description heq
  subst heq
  simp [Convergence.passCalls, hdeleting, Forge.removalCalls] at hcall

theorem ends_retire {s : State} (hpolicy : repo.effectiveDeletionPolicy = .delete) :
    (Convergence.retire (forge site) repo).Ends s
      (fun _ after => repo.fullPath ∉ after.projects) fun _ _ => True := by
  rw [Convergence.retire, Act.ends_bind]
  refine ends_getProject.mono ?_ fun _ _ _ => trivial
  intro remote after hend
  obtain ⟨rfl, rfl⟩ := hend
  split
  · unfold Forge.removeRepository
    rw [hpolicy]
    exact ends_deleteRepository
  · rename_i hnone
    simpa using hnone

/-- A pass that releases an object has deleted its repository, if that is the policy. -/
theorem absent_of_ok (h : Fetched o v) {connection : Connection}
    (haccess : r.convergence.Access o v repo connection (forge site))
    (hpolicy : repo.effectiveDeletionPolicy = .delete) (hdeleting : o.isDeleting = true)
    (hok : (r.reconcile o v).1.toBool = true) :
    repo.fullPath ∉ (r.reconcile o v).2.world.backend.projects := by
  obtain ⟨p, q, hrun, hcompleted⟩ | ⟨failure, q, hrun, -⟩ := reconcile_of_fetched (r := r) h
  · have hwork := hcompleted.work
    have hopening : r.convergence.Access (r.opening o v).object (r.opening o v).world repo
        connection (forge site) :=
      haccess.of_kin (kin_admitted r o) rfl h.faults
    rw [Convergence.converge_of_access hopening,
      Convergence.convergeOn_of_deleted (by exact hdeleting)] at hwork
    have hretired : ((Convergence.retire (forge site) repo).within
        Pass.onBackend).Ends (Convergence.templated (r.opening o v) repo)
        (fun _ after => repo.fullPath ∉ after.world.backend.projects) fun _ _ => True :=
      Act.ends_within.2 (ends_retire hpolicy)
    have hgone := hretired.of_ok hwork
    rw [hrun]
    rw [hcompleted.closed.world, finalized_world]
    exact hgone
  · rw [hrun] at hok
    cases hok

/-! ## The invariant of a run -/

/-- Once a pass has created the repository, it is guarded as long as it is there, if `covered`, and
otherwise not; and when it is gone, the object is gone or being deleted. -/
def Watched (o : Owner) (repo : Descriptor) (finalizer : String) (covered : Bool)
    (v : World State) : Prop :=
  (repo.fullPath ∈ v.backend.projects ∧ (Guarded finalizer o.key v ↔ covered = true)) ∨
    (repo.fullPath ∉ v.backend.projects ∧
      ∀ stored, v.store.objects[o.key]? = some stored → stored.isDeleting = true)

/-- A pass over a living object whose repository is there afterwards. -/
theorem watched_of_living {stored : Owner} {failures : Table String} {covered : Bool}
    (hfinalizer : r.settings.finalizer = some finalizer)
    (hfetched : Fetched stored (v.withFailures failures)) (hliving : stored.isDeleting = false)
    (hpresent : repo.fullPath ∈
      (r.reconcile stored (v.withFailures failures)).2.world.backend.projects)
    (hcovered : finalizer ∈ stored.metadata.finalizers ↔ covered = true) :
    Watched stored repo finalizer
      (covered || (r.reconcile stored (v.withFailures failures)).1.toBool)
      (r.reconcile stored (v.withFailures failures)).2.world := by
  refine .inl ⟨hpresent, ?_⟩
  cases hok : (r.reconcile stored (v.withFailures failures)).1.toBool with
  | true => simpa using guarded_of_ok hfetched hliving hfinalizer hok
  | false => rw [guarded_iff_of_error hfetched hok, hcovered, Bool.or_false]

section Invariant

variable {connection : Connection} {covered : Bool}
  (hserves : r.registry.Serves (forge site))
  (hfinalizer : r.settings.finalizer = some finalizer)
  (hpolicy : repo.effectiveDeletionPolicy = .delete)

include hserves hfinalizer hpolicy

theorem Watched.pass {stored : Owner} {failures : Table String}
    (h : Watched stored repo finalizer covered v)
    (hstored : v.store.objects[stored.key]? = some stored)
    (hfetched : Fetched stored (v.withFailures failures))
    (haccess : r.convergence.Access stored (v.withFailures failures) repo connection
      (forge site)) :
    Watched stored repo finalizer
      (covered || (r.reconcile stored (v.withFailures failures)).1.toBool)
      (r.reconcile stored (v.withFailures failures)).2.world := by
  cases hdeleting : stored.isDeleting with
  | false =>
      obtain ⟨hpresent, hcovered⟩ | ⟨-, hgone⟩ := h
      · exact watched_of_living hfinalizer hfetched hdeleting
          (stays_of_living hserves haccess.template hdeleting hpresent)
          ((guarded_iff hstored).symm.trans hcovered)
      · cases (hgone stored hstored).symm.trans hdeleting
  | true =>
      have hstill : ∀ next, (r.reconcile stored (v.withFailures failures)).2.world.store.objects[
          stored.key]? = some next → next.isDeleting = true :=
        fun next hnext => (kin_of_stored hfetched hnext).2.trans hdeleting
      by_cases hpresent : repo.fullPath ∈
          (r.reconcile stored (v.withFailures failures)).2.world.backend.projects
      · have hbefore := staysAway_of_deleting hserves haccess.template hdeleting hpresent
        obtain ⟨-, hcovered⟩ | ⟨habsent, -⟩ := h
        · refine .inl ⟨hpresent, ?_⟩
          -- a pass that succeeds would have deleted the repository
          cases hok : (r.reconcile stored (v.withFailures failures)).1.toBool with
          | true => exact (absent_of_ok hfetched haccess hpolicy hdeleting hok hpresent).elim
          | false =>
              rw [guarded_iff_of_error hfetched hok, ← guarded_iff hstored, hcovered, Bool.or_false]
        · exact (habsent hbefore).elim
      · exact .inr ⟨hpresent, hstill⟩

theorem Watched.after (h : Watched o repo finalizer covered v) (htended : Tended r o w v)
    (haccess : r.convergence.Access o w repo connection (forge site))
    (event : Event) :
    Watched o repo finalizer
      (covered || r.succeeds o.metadata.space o.metadata.name v event)
      (r.after o.metadata.space o.metadata.name v event) := by
  cases event with
  | pass time failures =>
      simp only [Reconciler.after, succeeds]
      cases hstored : v.store.objects[o.key]? with
      | none =>
          rw [freshPass_of_absent hstored]
          simpa using h
      | some stored =>
          have hkin := htended.stored stored hstored
          have hfetched := htended.fetched hstored failures
          have hreached : ({ r with now := time } : Reconciler State).convergence.Access stored
              (v.withFailures failures) repo connection (forge site) := by
            obtain ⟨template, tenant, secrets, secret, provider⟩ :=
              haccess.of_kin (v := v.withFailures failures) hkin htended.secrets htended.faults
            exact ⟨template, tenant, secrets, secret, provider⟩
          rw [freshPass_of_stored hstored]
          unfold Watched at h ⊢
          rw [← hkin.key] at h hstored ⊢
          exact Watched.pass (r := { r with now := time }) hserves hfinalizer hpolicy h hstored
            hfetched hreached
  | deletion time =>
      rw [succeeds, Bool.or_false]
      obtain ⟨-, hsame⟩ | ⟨stored, objects, hstored, hafter, hobjects⟩ := after_deletion r o v time
      · rw [hsame]
        exact h
      · rw [hafter]
        obtain ⟨hpresent, hcovered⟩ | ⟨habsent, -⟩ := h
        · refine .inl ⟨hpresent, Iff.trans ?_ hcovered⟩
          rw [guarded_iff hstored]
          obtain ⟨hempty, hnone⟩ | hmarked := hobjects
          · simp [not_guarded_of_absent (v := { v with store := { v.store with objects } }) hnone,
              hempty]
          · rw [guarded_iff (v := { v with store := { v.store with objects } }) hmarked,
              finalizers_markDeleted]
        · refine .inr ⟨habsent, fun next hnext => ?_⟩
          obtain ⟨-, hnone⟩ | hmarked := hobjects
          · cases hnone.symm.trans hnext
          · obtain rfl := Option.some.inj (hmarked.symm.trans hnext)
            exact isDeleting_markDeleted time stored

theorem Watched.run (h : Watched o repo finalizer covered v) (htended : Tended r o w v)
    (haccess : r.convergence.Access o w repo connection (forge site))
    (events : List Event) :
    Watched o repo finalizer
      (covered || r.anySucceeds o.metadata.space o.metadata.name v events)
      (r.run o.metadata.space o.metadata.name v events) := by
  induction events generalizing v covered with
  | nil => simpa [anySucceeds, Reconciler.run] using h
  | cons event rest ih =>
      have hnext := h.after hserves hfinalizer hpolicy htended haccess event
      simpa [anySucceeds, Reconciler.run, Bool.or_assoc] using ih hnext (htended.after event)

end Invariant

/-- An event that brings the repository is a pass over a living object that has reached the
forge. -/
theorem watched_of_creation {covered : Bool}
    (hserves : r.registry.Serves (forge site))
    (hfinalizer : r.settings.finalizer = some finalizer)
    (htemplate : r.convergence.completed o = some repo) (hfaults : w.faults = {})
    (htended : Tended r o w v) (hcovered : Guarded finalizer o.key v ↔ covered = true)
    {event : Event} (habsent : repo.fullPath ∉ v.backend.projects)
    (hcreated : repo.fullPath ∈
      (r.after o.metadata.space o.metadata.name v event).backend.projects) :
    (∃ connection, r.convergence.Access o w repo connection (forge site)) ∧
      Watched o repo finalizer
        (covered || r.succeeds o.metadata.space o.metadata.name v event)
        (r.after o.metadata.space o.metadata.name v event) := by
  cases event with
  | deletion time =>
      obtain ⟨-, hsame⟩ | ⟨stored, objects, -, hafter, -⟩ := after_deletion r o v time
      · rw [hsame] at hcreated
        exact (habsent hcreated).elim
      · rw [hafter] at hcreated
        exact (habsent hcreated).elim
  | pass time failures =>
      simp only [Reconciler.after, succeeds] at hcreated ⊢
      cases hstored : v.store.objects[o.key]? with
      | none =>
          rw [freshPass_of_absent hstored] at hcreated
          exact (habsent hcreated).elim
      | some stored =>
          have hkin := htended.stored stored hstored
          have hfetched := htended.fetched hstored failures
          have hrepo := hkin.completed.trans htemplate
          rw [freshPass_of_stored hstored] at hcreated ⊢
          constructor
          · refine Classical.byContradiction fun hnone => habsent ?_
            rwa [backend_of_no_access] at hcreated
            intro repo' connection other hreached
            obtain ⟨template, tenant, secrets, secret, provider⟩ := hreached
            have hreached : r.convergence.Access o w repo' connection other :=
              Convergence.Access.of_kin ⟨template, tenant, secrets, secret, provider⟩
                (hkin.trans (kin_admitted r stored)).symm
                htended.secrets.symm hfaults
            obtain rfl := hreached.forge_eq hserves
            obtain rfl := Option.some.inj (htemplate.symm.trans hreached.template)
            exact hnone ⟨connection, hreached⟩
          · have hliving : stored.isDeleting = false := by
              refine Bool.eq_false_iff.2 fun hdeleting => habsent ?_
              exact staysAway_of_deleting (r := { r with now := time })
                (v := v.withFailures failures) hserves hrepo hdeleting hcreated
            unfold Watched
            rw [← hkin.key] at hcovered hstored ⊢
            exact
              watched_of_living (r := { r with now := time }) hfinalizer hfetched hliving hcreated
              ((guarded_iff hstored).symm.trans hcovered)

/-! ## Main statements -/

/-- A repository that a pass of a run has created, and that is there at the end: its object is
stored with the finalizer exactly if the finalizer was there before that pass, or that pass or a
later one succeeded. -/
theorem created_is_guarded_iff {declared : Descriptor}
    (hserves : r.registry.Serves (forge site)) (hfetched : Fetched o w)
    (hfinalizer : r.settings.finalizer = some finalizer)
    (htemplate : o.spec.gitTemplate = some declared)
    (hpolicy : declared.deletionPolicy.getD
      (o.spec.deletionPolicy.getD r.settings.defaultDeletionPolicy) = .delete)
    (before : List Event) (creation : Event) (later : List Event)
    (habsent : declared.fullPath ∉
      (r.run o.metadata.space o.metadata.name w before).backend.projects)
    (hcreated : declared.fullPath ∈
      (r.run o.metadata.space o.metadata.name w (before ++ [creation])).backend.projects)
    (hpresent : declared.fullPath ∈
      (r.run o.metadata.space o.metadata.name w (before ++ creation :: later)).backend.projects) :
    Guarded finalizer o.key
        (r.run o.metadata.space o.metadata.name w (before ++ creation :: later)) ↔
      Guarded finalizer o.key (r.run o.metadata.space o.metadata.name w before) ∨
        r.anySucceeds o.metadata.space o.metadata.name
          (r.run o.metadata.space o.metadata.name w before) (creation :: later) = true := by
  classical
  generalize hrepo : completedTemplate o r.settings.defaultDeletionPolicy
    r.settings.defaultCreationPolicy declared = repo
  have hcompleted : r.convergence.completed o = some repo := by
    rw [Convergence.completed, htemplate, ← hrepo]
    rfl
  have hpath : repo.fullPath = declared.fullPath := by rw [← hrepo]; rfl
  have hdelete : repo.effectiveDeletionPolicy = .delete := by
    rw [← hrepo]
    simpa [completedTemplate, Descriptor.effectiveDeletionPolicy] using hpolicy
  rw [← hpath] at habsent hcreated hpresent
  rw [run_append] at hcreated hpresent ⊢
  have htended := (Tended.start (r := r) hfetched).run before
  generalize r.run o.metadata.space o.metadata.name w before = v at *
  obtain ⟨covered, hcovered⟩ : ∃ covered : Bool, Guarded finalizer o.key v ↔ covered = true :=
    ⟨decide (Guarded finalizer o.key v), by simp⟩
  obtain ⟨⟨connection, haccess⟩, hwatched⟩ := watched_of_creation hserves hfinalizer hcompleted
    hfetched.faults htended hcovered habsent hcreated
  have hend := hwatched.run hserves hfinalizer hdelete (htended.after creation) haccess later
  obtain ⟨-, hguarded⟩ | ⟨hgone, -⟩ := hend
  · rw [hcovered, anySucceeds, ← Bool.or_eq_true, ← Bool.or_assoc]
    exact hguarded
  · exact (hgone hpresent).elim

/-! ## An orphan -/

/-- A reconciler that deletes repositories with their objects and protects none of them. -/
def deletingReconciler : Reconciler State :=
  { sampleReconciler with
    settings := { deletionProtection := false, defaultDeletionPolicy := .delete } }

/-- A tenant, as stored, whose template wants a repository with one deploy key. -/
def sampleTenant : Owner where
  metadata := { name := "t", space := "ns", resourceVersion := 1 }
  spec.gitTemplate := some
    { path := "acme"
      repoName := "r"
      deployKeys := Std.ExtTreeMap.ofList [("ci", (⟨"ssh-ed25519", "AAAA", false⟩ : DeployKey))] }

/-- A world that stores the tenant, with an empty forge. -/
def sampleStart : World State :=
  { sampleWorld {} with store := (({} : ObjectStore).insert sampleTenant).2 }

theorem fetched_sampleTenant : Fetched sampleTenant sampleStart :=
  ⟨by decide +kernel, rfl⟩

/-- The second pass makes up for the first, which was cut short behind the creation. -/
theorem created_is_guarded_iff_sampleTenant :
    let failures : Table String := Std.ExtTreeMap.ofList [("add_deploy_key", "down")]
    Guarded defaultFinalizerName "ns/t"
      (deletingReconciler.run "ns" "t" sampleStart [.pass ⟨0, 0⟩ failures, .pass ⟨1, 0⟩ ∅]) := by
  intro failures
  refine (created_is_guarded_iff (r := deletingReconciler) (o := sampleTenant)
    (serves_factory sampleSite) fetched_sampleTenant (by decide +kernel) rfl rfl []
    (.pass ⟨0, 0⟩ failures) [.pass ⟨1, 0⟩ ∅] ?_ ?_ ?_).2 (.inr ?_) <;>
    decide +kernel

/-- A repository that was created does not always have a guarded object: its deploy key is refused,
and then the object is deleted. It is gone, and the repository stays. -/
theorem orphan_after_failed_creation :
    ¬ ∀ (r : Reconciler State) (o : Owner) (w : World State) (declared : Descriptor)
        (finalizer : String) (events : List Event),
      r.registry.Serves (forge sampleSite) → Fetched o w →
      r.settings.finalizer = some finalizer → r.settings.deletionProtection = false →
      r.Unprotected o → o.spec.gitTemplate = some declared →
      declared.deletionPolicy.getD
        (o.spec.deletionPolicy.getD r.settings.defaultDeletionPolicy) = .delete →
      declared.fullPath ∉ w.backend.projects →
      declared.fullPath ∈ (r.run o.metadata.space o.metadata.name w events).backend.projects →
      Guarded finalizer o.key (r.run o.metadata.space o.metadata.name w events) := by
  intro h
  let failures : Table String := Std.ExtTreeMap.ofList [("add_deploy_key", "down")]
  have hguarded := h deletingReconciler sampleTenant sampleStart _ defaultFinalizerName
    [.pass ⟨0, 0⟩ failures, .deletion ⟨0, 0⟩] (serves_factory sampleSite)
    fetched_sampleTenant (by decide +kernel) rfl (.inr ⟨rfl, by decide +kernel⟩) rfl rfl
    (by decide +kernel) (by decide +kernel)
  exact not_guarded_of_absent (by decide +kernel) hguarded

end Reconciler

end ForgeSync
