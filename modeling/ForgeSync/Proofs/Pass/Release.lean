import ForgeSync.Proofs.Pass.Orphans

/-!
# Finalizers that are no longer in use

A pass puts the finalizer of its settings on a living object. When the settings say later that no
finalizer is used, the passes take the default finalizer off, and ask for it before a deletion.
They know no other one: an object that got a finalizer of another name keeps it, and unless it has
the default one as well, its deletion is refused.

Main statements: `finalizers_of_ok` says which finalizers a pass stores, `Bears.run` that passes
that fail and requests for deletion leave them alone, and `released_iff_default` which objects are
released.
-/

namespace ForgeSync

open Forge.Memory

/-! ## The finalizers that a pass stores -/

namespace Lifecycle

variable {rules : Rules} {deleted : Bool} {m : ObjectMeta}

/-- Which finalizers are set depends on the finalizers alone. -/
theorem finalizers_finalize_congr {n : ObjectMeta} (h : m.finalizers = n.finalizers) :
    (finalize rules deleted m).finalizers = (finalize rules deleted n).finalizers := by
  unfold finalize
  cases rules.finalizer with
  | none => simp [ObjectMeta.removeFinalizer, h]
  | some name =>
    cases deleted with
    | true => simp [ObjectMeta.removeFinalizer, h]
    | false =>
      by_cases hmem : name ∈ n.finalizers
      · simp [ObjectMeta.addFinalizer, ObjectMeta.hasFinalizer, h, hmem]
      · simp [ObjectMeta.addFinalizer, ObjectMeta.hasFinalizer, h, hmem]

theorem finalizers_finalize_of_none (h : rules.finalizer = none) :
    (finalize rules deleted m).finalizers =
      m.finalizers.filter (· ≠ defaultFinalizerName) := by
  rw [finalize, h]
  rfl

theorem finalize_of_living {name : String} (h : rules.finalizer = some name) :
    finalize rules false m = m.addFinalizer name := by
  rw [finalize, h]
  rfl

end Lifecycle

namespace Reconciler

section Passes

variable {σ : Type} {r : Reconciler σ} {o : Owner} {w : World σ}

theorem finalizer_rules (r : Reconciler σ) (o : Owner) :
    (r.rules o).finalizer = r.settings.finalizer := by
  dsimp only [rules]

theorem finalizers_withVersion (o : Owner) (version : Nat) :
    (o.withVersion version).metadata.finalizers = o.metadata.finalizers := rfl

theorem Completed.finalizers {p q : Pass σ} (h : Completed r o w p q) :
    (r.finalized o p).object.metadata.finalizers =
      (Lifecycle.finalize (r.rules o) o.isDeleting o.metadata).finalizers := by
  have hdeleted : p.deleted = o.isDeleting := h.worked.deleted
  have hmetadata : p.object.metadata = (r.admitted o).metadata := h.worked.metadata
  have hsame : p.object.metadata.finalizers = o.metadata.finalizers := by
    rw [hmetadata, finalizers_admitted]
  have hset : (r.finalized o p).object.metadata =
      Lifecycle.finalize (r.rules o) p.deleted p.object.metadata := by
    dsimp only [finalized, Owner.mapMeta]
  rw [hset, hdeleted]
  exact Lifecycle.finalizers_finalize_congr hsame

/-- What a pass that did not fail leaves of an object has the finalizers that it shall have. -/
theorem finalizers_of_ok (h : Fetched o w) {next : Owner}
    (hok : (r.reconcile o w).1.toBool = true)
    (hnext : (r.reconcile o w).2.world.store.objects[o.key]? = some next) :
    next.metadata.finalizers =
      (Lifecycle.finalize (r.rules o) o.isDeleting o.metadata).finalizers := by
  obtain ⟨p, q, hrun, hcompleted⟩ := completed_of_ok h hok
  rw [hrun] at hnext
  obtain ⟨version, rfl⟩ := hcompleted.closed.stored next hnext
  rw [finalizers_withVersion, hcompleted.finalizers]

/-- A pass that did not fail leaves an object in the store that a finalizer still holds. -/
theorem exists_stored_of_ok (h : Fetched o w) (hok : (r.reconcile o w).1.toBool = true)
    (hheld : o.isDeleting = true →
      (Lifecycle.finalize (r.rules o) o.isDeleting o.metadata).finalizers ≠ []) :
    ∃ next, (r.reconcile o w).2.world.store.objects[o.key]? = some next := by
  obtain ⟨p, q, hrun, hcompleted⟩ := completed_of_ok h hok
  have hkept : ObjectStore.isReleased (r.finalized o p).object.metadata = false := by
    rw [ObjectStore.isReleased, hcompleted.isDeleting, hcompleted.finalizers]
    cases hdeleting : o.isDeleting with
    | false => rfl
    | true => simpa [hdeleting] using hheld hdeleting
  rw [hrun]
  exact hcompleted.closed.present hkept

/-- The deletion of a stored object is refused exactly if it is not allowed. -/
theorem refused_iff (h : Fetched o w) (hdeleting : o.isDeleting = true) :
    (r.reconcile o w).1 = .error ⟨"HandleDeletion", .finalizerNotRemoved⟩ ↔
      Lifecycle.isAllowed (r.rules o) o = false := by
  cases hallowed : Lifecycle.isAllowed (r.rules o) o with
  | false => simp [reconcile_of_refused r o w hdeleting hallowed]
  | true =>
    have hadmitted : o.isDeleting = true → Lifecycle.isAllowed (r.rules o) o = true :=
      fun _ => hallowed
    -- behind the gate a pass on a fetched copy can fail in the work on the repository only
    rcases hrun : r.convergence.converge.runFrom (r.opening o w) with ⟨failure | _, p⟩
    · rw [reconcile_of_admitted r o w hadmitted, hrun]
      simp
    · obtain ⟨q, hok, -⟩ := completed_of_work h hadmitted hrun
      simp [hok]

end Passes

/-! ## Without a finalizer in use -/

variable {r r' : Reconciler State} {o a : Owner} {v w : World State} {f : String}
  {finalizers : List String}

theorem finalize_of_unused (hunused : r.settings.finalizer = none) (deleted : Bool)
    (m : ObjectMeta) :
    (Lifecycle.finalize (r.rules a) deleted m).finalizers =
      m.finalizers.filter (· ≠ defaultFinalizerName) :=
  Lifecycle.finalizers_finalize_of_none ((finalizer_rules r a).trans hunused)

/-- A pass without a finalizer in use takes the default one off and leaves every other one. -/
theorem guarded_iff_of_unused (h : Fetched a v) (hunused : r.settings.finalizer = none)
    (hok : (r.reconcile a v).1.toBool = true) (hmem : f ∈ a.metadata.finalizers) :
    Guarded f a.key (r.reconcile a v).2.world ↔ f ≠ defaultFinalizerName := by
  constructor
  · intro hguarded
    obtain ⟨next, hnext, hkept⟩ := hguarded
    rw [finalizers_of_ok h hok hnext, finalize_of_unused hunused] at hkept
    simpa using (List.mem_filter.1 hkept).2
  · intro hother
    have hkept : f ∈ a.metadata.finalizers.filter (· ≠ defaultFinalizerName) :=
      List.mem_filter.2 ⟨hmem, by simpa using hother⟩
    rw [← finalize_of_unused (a := a) hunused a.isDeleting a.metadata] at hkept
    obtain ⟨next, hnext⟩ := exists_stored_of_ok h hok fun _ => List.ne_nil_of_mem hkept
    rw [← finalizers_of_ok h hok hnext] at hkept
    exact ⟨next, hnext, hkept⟩

/-! ## From one success to the next -/

/-- The world stores an object under the key of `o`, with these finalizers. -/
structure Bears (o : Owner) (finalizers : List String) (v : World State) : Prop where
  faults : v.faults = {}
  stored : ∃ a, v.store.objects[o.key]? = some a ∧ a.key = o.key ∧
    a.metadata.finalizers = finalizers

theorem Bears.of_stamping (h : Fetched o w) (hliving : o.isDeleting = false)
    (hok : (r.reconcile o w).1.toBool = true) (hinUse : r.settings.finalizer = some f) :
    Bears o (o.metadata.addFinalizer f).finalizers (r.reconcile o w).2.world where
  faults := (along_reconcile r o w).faults.trans h.faults
  stored := by
    obtain ⟨a, ha⟩ := exists_stored_of_ok h hok (by simp [hliving])
    refine ⟨a, ha, (kin_of_stored h ha).1.key, ?_⟩
    rw [finalizers_of_ok h hok ha, hliving,
      Lifecycle.finalize_of_living ((finalizer_rules r o).trans hinUse)]

/-- Neither a pass that fails nor a request for deletion changes the finalizers, and as long as
there are some the object stays. -/
theorem Bears.after (h : Bears o finalizers v) (hheld : finalizers ≠ []) {event : Event}
    (hfails : r.succeeds o.metadata.space o.metadata.name v event = false) :
    Bears o finalizers (r.after o.metadata.space o.metadata.name v event) := by
  obtain ⟨hfaults, a, ha, hkey, hsame⟩ := h
  cases event with
  | pass now failures =>
    have hfetched : Fetched a (v.withFailures failures) := ⟨by rw [hkey]; exact ha, hfaults⟩
    simp only [succeeds, freshPass_of_stored ha, Option.any_some] at hfails
    rw [Reconciler.after, freshPass_of_stored ha]
    rcases hresult : (({ r with now } : Reconciler State).reconcile a
        (v.withFailures failures)).1 with failure | outcome
    · obtain ⟨next, hnext, hkept⟩ := finalizers_of_error hfetched hresult
      have hkin := (kin_of_stored hfetched hnext).1
      rw [hkey] at hnext
      exact ⟨(along_reconcile _ _ _).faults.trans hfaults, next, hnext, hkin.key.trans hkey,
        hkept.trans hsame⟩
    · rw [hresult] at hfails
      cases hfails
  | deletion now =>
    obtain ⟨hnone, -⟩ | ⟨stored, objects, hstored, hafter, hobjects⟩ :=
      after_deletion r o v now
    · cases hnone.symm.trans ha
    · obtain rfl := Option.some.inj (hstored.symm.trans ha)
      obtain ⟨hempty, -⟩ | hmarked := hobjects
      · exact absurd (hsame.symm.trans hempty) hheld
      · rw [hafter]
        exact ⟨hfaults, _, hmarked, (kin_markDeleted (r := r) now stored).key.trans hkey,
          (ObjectStore.finalizers_markDeleted now stored).trans hsame⟩

theorem Bears.run (h : Bears o finalizers v) (hheld : finalizers ≠ []) (events : List Event)
    (hfail : r.anySucceeds o.metadata.space o.metadata.name v events = false) :
    Bears o finalizers (r.run o.metadata.space o.metadata.name v events) := by
  induction events generalizing v with
  | nil => exact h
  | cons event rest ih =>
    rw [anySucceeds, Bool.or_eq_false_iff] at hfail
    exact ih (h.after hheld hfail.1) hfail.2

/-! ## Which objects are released -/

/-- A pass that did not fail has put the finalizer in use on a living object. -/
structure Stamped (r : Reconciler State) (f : String) (o : Owner) (w : World State) : Prop where
  valid : r.settings.validate = .ok ()
  inUse : r.settings.finalizer = some f
  fetched : Fetched o w
  living : o.isDeleting = false
  succeeded : (r.reconcile o w).1.toBool = true

theorem mem_addFinalizer_iff {m : ObjectMeta} {g : String} :
    g ∈ (m.addFinalizer f).finalizers ↔ g ∈ m.finalizers ∨ g = f := by
  by_cases hmem : f ∈ m.finalizers
  · have hsame : g ∈ m.finalizers ↔ g ∈ m.finalizers ∨ g = f := by
      constructor
      · exact .inl
      · rintro (h | rfl)
        · exact h
        · exact hmem
    simpa [ObjectMeta.addFinalizer, ObjectMeta.hasFinalizer, hmem] using hsame
  · simp [ObjectMeta.addFinalizer, ObjectMeta.hasFinalizer, hmem]

/-- After an object was stamped the finalizer goes out of use, and then passes fail and its deletion
may be requested. The next pass that does not fail releases the object from the finalizer if that
is the default one, and not otherwise; and the deletion of an unprotected object is refused if the
finalizer is not the default one and the object has not got that one as well. -/
theorem released_iff_default (h : Stamped r f o w) (hunused : r'.settings.finalizer = none)
    (events : List Event)
    (hfail : r'.anySucceeds o.metadata.space o.metadata.name (r.reconcile o w).2.world events =
      false) (now : Calendar.Instant) (failures : Table String) :
    let v := r'.run o.metadata.space o.metadata.name (r.reconcile o w).2.world events
    let s : Reconciler State := { r' with now }
    ∃ a, v.store.objects[o.key]? = some a ∧ f ∈ a.metadata.finalizers ∧
      ((s.reconcile a (v.withFailures failures)).1.toBool = true →
        (Guarded f o.key (s.reconcile a (v.withFailures failures)).2.world ↔
          f ≠ defaultFinalizerName) ∧
        (a.isDeleting = false → ∃ next,
          (s.reconcile a (v.withFailures failures)).2.world.store.objects[o.key]? = some next)) ∧
      (a.isDeleting = true → s.Unprotected a →
        ((s.reconcile a (v.withFailures failures)).1 =
            .error ⟨"HandleDeletion", .finalizerNotRemoved⟩ ↔
          f ≠ defaultFinalizerName ∧ defaultFinalizerName ∉ o.metadata.finalizers)) := by
  intro v s
  have hmem : f ∈ (o.metadata.addFinalizer f).finalizers := mem_addFinalizer_iff.2 (.inr rfl)
  have hborne := (Bears.of_stamping h.fetched h.living h.succeeded h.inUse).run
    (r := r') (List.ne_nil_of_mem hmem) events hfail
  obtain ⟨hfaults, a, ha, hkey, hsame⟩ := hborne
  have hfetched : Fetched a (v.withFailures failures) := ⟨by rw [hkey]; exact ha, hfaults⟩
  have hunused' : s.settings.finalizer = none := hunused
  have hstill : f ∈ a.metadata.finalizers := by rw [hsame]; exact hmem
  refine ⟨a, ha, hstill, ?_, ?_⟩
  · intro hok
    rw [← hkey]
    exact ⟨guarded_iff_of_unused hfetched hunused' hok hstill, fun hliving =>
      exists_stored_of_ok hfetched hok (by simp [hliving])⟩
  · intro hdeleting hunprotected
    have hexpected : s.expectedFinalizer = defaultFinalizerName := by
      rw [expectedFinalizer, hunused']
      rfl
    rw [refused_iff hfetched hdeleting, Bool.eq_false_iff, Ne, isAllowed_iff, hexpected, hsame,
      mem_addFinalizer_iff]
    simp [hunprotected, not_or, and_comm, eq_comm]

/-! ## A finalizer of another name -/

/-- A reconciler under a finalizer, or under none if the name is empty, that protects nothing. -/
def finalizerReconciler (name : String) : Reconciler State :=
  { sampleReconciler with settings := { finalizerName := name, deletionProtection := false } }

def foreignFinalizer : String := "team.example/guard"

theorem stamped_sampleTenant :
    Stamped (finalizerReconciler foreignFinalizer) foreignFinalizer sampleTenant sampleStart where
  valid := rfl
  inUse := by decide +kernel
  fetched := fetched_sampleTenant
  living := rfl
  succeeded := by decide +kernel

/-- The world after the tenant was stamped. -/
def stampedWorld : World State :=
  ((finalizerReconciler foreignFinalizer).reconcile sampleTenant sampleStart).2.world

/-- The forge is down for one pass, then the deletion is requested, and the next pass refuses
it. -/
theorem released_iff_default_sampleTenant :
    let events := [.pass ⟨1, 0⟩ (Std.ExtTreeMap.ofList [("get_project", "down")]),
      .deletion ⟨2, 0⟩]
    let v := (finalizerReconciler "").run "ns" "t" stampedWorld events
    ∃ a, v.store.objects["ns/t"]? = some a ∧
      (({ finalizerReconciler "" with now := ⟨3, 0⟩ } : Reconciler State).reconcile a
        (v.withFailures ∅)).1 = .error ⟨"HandleDeletion", .finalizerNotRemoved⟩ := by
  intro events v
  have hunused : (finalizerReconciler "").settings.finalizer = none := by decide +kernel
  obtain ⟨a, ha, -, -, hrefused⟩ := released_iff_default stamped_sampleTenant hunused events
    (by decide +kernel) ⟨3, 0⟩ ∅
  have hread : (v.store.objects["ns/t"]?).map (fun a =>
      (a.isDeleting, a.metadata.annotations[protectionKey]?)) = some (true, none) := by
    decide +kernel
  have hstored : v.store.objects["ns/t"]? = some a := ha
  rw [hstored, Option.map_some, Option.some.injEq, Prod.mk.injEq] at hread
  obtain ⟨hdeleting, hunmarked⟩ := hread
  have hunprotected : ({ finalizerReconciler "" with now := ⟨3, 0⟩ } :
      Reconciler State).Unprotected a := .inr ⟨rfl, by simp [hunmarked]⟩
  exact ⟨a, hstored, (hrefused hdeleting hunprotected).2 (by decide +kernel)⟩

/-- A finalizer that went out of use does not always come off: neither the next pass over the living
object takes it off, nor is the deletion of the object let through. -/
theorem held_by_foreign_finalizer :
    (¬ ∀ (r r' : Reconciler State) (f : String) (o a : Owner) (w : World State),
        Stamped r f o w → r'.settings.finalizer = none →
        (r.reconcile o w).2.world.store.objects[o.key]? = some a →
        (r'.reconcile a (r.reconcile o w).2.world).1 = .ok { requeue := false } →
        ¬ Guarded f o.key (r'.reconcile a (r.reconcile o w).2.world).2.world) ∧
      ¬ ∀ (r r' : Reconciler State) (f : String) (o a : Owner) (w : World State)
        (now : Calendar.Instant),
        Stamped r f o w → r'.settings.finalizer = none →
        (r'.after o.metadata.space o.metadata.name (r.reconcile o w).2.world
          (.deletion now)).store.objects[o.key]? = some a →
        r'.Unprotected a →
        (r'.reconcile a (r'.after o.metadata.space o.metadata.name (r.reconcile o w).2.world
          (.deletion now))).1 ≠ .error ⟨"HandleDeletion", .finalizerNotRemoved⟩ := by
  have hforeign :
      foreignFinalizer ∈ (sampleTenant.metadata.addFinalizer foreignFinalizer).finalizers :=
    mem_addFinalizer_iff.2 (.inr rfl)
  have hborne : Bears sampleTenant _ stampedWorld := Bears.of_stamping
    stamped_sampleTenant.fetched rfl stamped_sampleTenant.succeeded stamped_sampleTenant.inUse
  constructor
  · intro h
    obtain ⟨hfaults, a, ha, hkey, hsame⟩ := hborne
    have hread : (stampedWorld.store.objects["ns/t"]?).map (fun a =>
        ((finalizerReconciler "").reconcile a stampedWorld).1.toBool) = some true := by
      decide +kernel
    rw [show stampedWorld.store.objects["ns/t"]? = some a from ha] at hread
    have hok := Option.some.inj hread
    have hfetched : Fetched a stampedWorld := ⟨by rw [hkey]; exact ha, hfaults⟩
    have hguarded := (guarded_iff_of_unused hfetched (by decide +kernel) hok
      (by rw [hsame]; exact hforeign)).2 (by decide)
    rw [hkey] at hguarded
    obtain ⟨-, q, hrun, -⟩ := completed_of_ok hfetched hok
    exact h _ (finalizerReconciler "") _ _ a _ stamped_sampleTenant (by decide +kernel) ha
      (congrArg Prod.fst hrun) hguarded
  · intro h
    let v := (finalizerReconciler "").after "ns" "t" stampedWorld (.deletion ⟨1, 0⟩)
    have hasked : Bears sampleTenant _ v := hborne.after (List.ne_nil_of_mem hforeign) rfl
    obtain ⟨hfaults, a, ha, hkey, -⟩ := hasked
    have hread : (v.store.objects["ns/t"]?).map (fun a =>
        (a.isDeleting, a.metadata.annotations[protectionKey]?,
          Lifecycle.isAllowed ((finalizerReconciler "").rules a) a)) =
        some (true, none, false) := by
      decide +kernel
    rw [show v.store.objects["ns/t"]? = some a from ha, Option.map_some, Option.some.injEq,
      Prod.mk.injEq, Prod.mk.injEq] at hread
    obtain ⟨hdeleting, hunmarked, hallowed⟩ := hread
    have hfetched : Fetched a v := ⟨by rw [hkey]; exact ha, hfaults⟩
    have hunprotected : (finalizerReconciler "").Unprotected a :=
      .inr ⟨rfl, by simp [hunmarked]⟩
    exact h _ (finalizerReconciler "") _ _ a _ ⟨1, 0⟩ stamped_sampleTenant (by decide +kernel)
      ha hunprotected ((refused_iff hfetched hdeleting).2 hallowed)

end Reconciler

end ForgeSync
