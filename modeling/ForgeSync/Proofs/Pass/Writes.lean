import ForgeSync.Proofs.Pass.Gate
import ForgeSync.Proofs.Pass.Storing

/-!
# What a pass may write

Of an object a pass may change the status, and little else: it fills in what the template leaves
open, keeps its own finalizer, and adds the annotation that protects. The work on the repository
writes nothing but the status, so all the rest is written by the closing, from the object in hand.
That holds on any forge, and whatever fails: the forge, the secrets, the vault, or the store itself.

Main statements: `reports_converge`, `closing_writes` and `wrote_of_reconcile`.
-/

namespace ForgeSync

/-! ## What is declared of an object -/

/-- All of an object but its version and its status. -/
def Owner.declaration (o : Owner) : Owner :=
  ({ o with status := {} } : Owner).withVersion 0

theorem Owner.key_congr {a b : Owner} (h : b.declaration = a.declaration) : b.key = a.key := by
  have hname : b.metadata.name = a.metadata.name := congrArg (·.metadata.name) h
  have hspace : b.metadata.space = a.metadata.space := congrArg (·.metadata.space) h
  rw [Owner.key, Owner.key, hname, hspace]

namespace ObjectStore

variable {store : ObjectStore} {o stored : Owner}

theorem getElem?_of_current (h : store.current o = .ok stored) :
    store.objects[o.key]? = some stored := by
  unfold current at h
  split at h
  · cases h
  · rename_i found hfound
    split at h
    · rw [hfound, Except.ok.inj h]
    · cases h

/-- A write of the status leaves what is declared as it is, of every object. -/
theorem declaration_updateStatus (store : ObjectStore) (o : Owner) (key : String) :
    (store.updateStatus o).2.objects[key]?.map Owner.declaration =
      store.objects[key]?.map Owner.declaration := by
  unfold updateStatus
  split
  · rfl
  · rename_i stored hcurrent
    dsimp only
    rw [Std.ExtTreeMap.getElem?_insert]
    split
    · rename_i heq
      rw [← Std.LawfulEqCmp.eq_of_compare heq, getElem?_of_current hcurrent]
      rfl
    · rfl

theorem getElem?_updateStatus_of_ne (store : ObjectStore) (o : Owner) {key : String}
    (h : key ≠ o.key) : (store.updateStatus o).2.objects[key]? = store.objects[key]? := by
  unfold updateStatus
  split
  · rfl
  · simp [Std.ExtTreeMap.getElem?_insert, h.symm]

end ObjectStore

/-! ## Work that writes nothing but the status -/

namespace Pass

variable {σ : Type}

/-- Of the object in hand and of the stored one nothing that is declared has changed, and of other
objects nothing at all. -/
structure Reports (p q : Pass σ) : Prop where
  object : q.object.declaration = p.object.declaration
  deleted : q.deleted = p.deleted
  own : q.world.store.objects[p.object.key]?.map Owner.declaration =
    p.world.store.objects[p.object.key]?.map Owner.declaration
  others : ∀ key, key ≠ p.object.key →
    q.world.store.objects[key]? = p.world.store.objects[key]?

theorem Reports.of_store {p q : Pass σ} (hobject : q.object.declaration = p.object.declaration)
    (hdeleted : q.deleted = p.deleted) (hstore : q.world.store = p.world.store) : Reports p q :=
  ⟨hobject, hdeleted, by rw [hstore], fun key _ => by rw [hstore]⟩

theorem reports_chains : Act.Chains (Reports (σ := σ)) where
  refl _ := .of_store rfl rfl rfl
  trans {a b c} h h' := by
    have hkey := Owner.key_congr h.object
    refine ⟨h'.object.trans h.object, h'.deleted.trans h.deleted, ?_, fun key hne => ?_⟩
    · rw [← hkey, h'.own, hkey, h.own]
    · rw [h'.others key (hkey ▸ hne), h.others key hne]

theorem moves_reports_onBackend {α : Type} (act : Act σ α) :
    Act.Moves Reports (act.within (onBackend (σ := σ))) :=
  fun _ => .of_store rfl rfl rfl

theorem moves_reports_mapStatus (f : RepoStatus → RepoStatus) :
    Act.Moves Reports (modifyObject (σ := σ) (·.mapStatus f)) :=
  fun _ => .of_store rfl rfl rfl

theorem moves_reports_withVersion (version : Nat) :
    Act.Moves Reports (modifyObject (σ := σ) (·.withVersion version)) :=
  fun _ => .of_store rfl rfl rfl

theorem reports_updateStatus (p : Pass σ) :
    Reports p (((World.updateStatus p.object).within onWorld).runFrom p).2 := by
  rw [Act.runFrom_within, World.updateStatus, World.guarded, Act.runFrom_ofFunction]
  dsimp only
  split
  · exact .of_store rfl rfl rfl
  · exact ⟨rfl, rfl, ObjectStore.declaration_updateStatus _ _ _,
      fun key hne => ObjectStore.getElem?_updateStatus_of_ne _ _ hne⟩

theorem reports_records : Records (Reports (σ := σ)) where
  toChains := reports_chains
  phase _ := moves_reports_mapStatus _
  version := moves_reports_withVersion
  write := reports_updateStatus

theorem moves_reports_storeToken (path : String) (grant : AccessTokenGrant) (token : String) :
    Act.Moves Reports ((World.storeToken path grant token).within (onWorld (σ := σ))) := by
  intro p
  rw [Act.runFrom_within, World.storeToken, World.guarded, Act.runFrom_ofFunction]
  dsimp only
  split <;> exact .of_store rfl rfl rfl

end Pass

namespace Convergence

variable {σ : Type} {c : Convergence σ} {forge : Forge σ} {repo : Descriptor}
  {connection : Connection} {p : Pass σ}

theorem moves_reports_convergeRepository (existed : Bool) :
    Act.Moves Pass.Reports (c.convergeRepository connection forge repo existed) := by
  have hP := Pass.reports_chains (σ := σ)
  have hsettle : Act.Moves Pass.Reports (settleVariables forge repo) :=
    moves_settleVariables_of hP (Pass.moves_reports_onBackend _ ·) (Pass.moves_reports_mapStatus _)
  have hgrant : Act.Moves Pass.Reports (c.grantToken forge repo) :=
    moves_grantToken_of hP (fun p _ _ => Pass.moves_reports_onBackend _ p)
      (Pass.moves_reports_storeToken _) fun _ => Pass.moves_reports_mapStatus _
  rw [convergeRepository_eq_prepare]
  apply hP.moves_bind (Pass.reports_records.moves_prepare (Pass.moves_reports_onBackend _)
    (Pass.moves_reports_onBackend _) (Pass.moves_reports_onBackend _) existed)
  exact fun _ => hP.moves_bind hsettle fun _ =>
    hP.moves_bind hgrant fun _ => Pass.moves_reports_mapStatus _

theorem reports_convergeOn :
    Pass.Reports p ((c.convergeOn connection forge repo).runFrom p).2 := by
  have hP := Pass.reports_chains (σ := σ)
  cases hdeleted : p.deleted with
  | true =>
      rw [convergeOn_of_deleted hdeleted]
      exact Pass.moves_reports_onBackend _ p
  | false =>
      have hread := Pass.moves_reports_onBackend (forge.readRepository repo) p
      rw [convergeOn_of_living hdeleted]
      rcases hrun : ((forge.readRepository repo).within Pass.onBackend).runFrom p with
        ⟨failure | remote, after⟩ <;> rw [hrun] at hread
      · exact hread
      · exact hP.trans hread (moves_reports_convergeRepository remote.isSome after)

/-- All that the work does besides writing the status is to fill in the template in hand. -/
theorem reports_converge (c : Convergence σ) (p : Pass σ) :
    ∃ start, (start = p ∨ ∃ repo, c.completed p.object = some repo ∧ start = templated p repo) ∧
      Pass.Reports start (c.converge.runFrom p).2 := by
  by_cases haccess : ∃ repo connection forge, Access c p.object p.world repo connection forge
  · obtain ⟨repo, connection, forge, haccess⟩ := haccess
    rw [converge_of_access haccess]
    exact ⟨_, .inr ⟨repo, haccess.template, rfl⟩, reports_convergeOn⟩
  · have hstrayed := strayed_of_no_access (c := c) (p := p)
      fun repo connection forge hreached => haccess ⟨repo, connection, forge, hreached⟩
    exact ⟨_, hstrayed.object, Pass.reports_chains.refl _⟩

end Convergence

/-! ## The closing -/

namespace Lifecycle

variable {σ : Type} {rules : Rules} {p : Pass σ}

/-- A write of metadata and spec is refused, or it goes through. -/
theorem storeObject_cases (rules : Rules) (p : Pass σ) :
    ((storeObject rules).runFrom p).2 = p ∨
      ∃ stored, p.world.store.current p.object = .ok stored ∧
        ((storeObject rules).runFrom p).2 = { p with
          object := p.object.withVersion (p.object.metadata.resourceVersion + 1)
          world := { p.world with store := (p.world.store.update p.object).2 } } := by
  simp only [storeObject, Act.runFrom_bind, Act.runFrom_get]
  split
  · rw [Act.runFrom_bind, Act.runFrom_within, World.updateObject, World.guarded,
      Act.runFrom_ofFunction]
    dsimp only [Pass.onWorld]
    cases p.world.faults.update with
    | some failure => exact .inl rfl
    | none =>
        cases hcurrent : p.world.store.current p.object with
        | error failure => simp [ObjectStore.update_of_stale hcurrent]
        | ok stored => exact .inr ⟨stored, rfl, by simp [ObjectStore.update, hcurrent]; rfl⟩
  · exact .inl rfl

theorem moves_reports_storeStatus (rules : Rules) :
    Act.Moves Pass.Reports (storeStatus (σ := σ) rules) := by
  have hP := Pass.reports_chains (σ := σ)
  refine Act.moves_get_bind.2 fun p => ?_
  split
  · refine hP.runFrom_bind (Pass.reports_updateStatus p) fun written => ?_
    cases written with
    | ok stored => exact Pass.moves_reports_withVersion _
    | error failure =>
        dsimp only
        split
        · exact hP.moves_pure _
        · exact hP.moves_throw _
  · exact hP.refl p

/-- The closing comes to its two writes. -/
theorem closing_eq (rules : Rules) (p : Pass σ) :
    (runSteps rules [updateObject] p).2 =
      ((do storeObject rules; storeStatus rules : Act (Pass σ) Unit).runFrom p).2 := by
  simp only [runSteps, updateObject, Act.runFrom_bind (Act.attempt _), Act.runFrom_attempt]
  rcases ((do storeObject rules; storeStatus rules : Act (Pass σ) Unit).runFrom p).1 with
    failure | _
  · by_cases hconflict : failure.isConflict = true <;> simp [hconflict]
  · rfl

/-- The closing leaves what is stored, or it stores what is declared of the object in hand. The
object goes only if nothing keeps it. -/
theorem closing_writes {stored : Owner} (rules : Rules)
    (hstored : p.world.store.objects[p.object.key]? = some stored)
    (hdeletion : p.object.metadata.deletionTimestamp = stored.metadata.deletionTimestamp) :
    let q := (runSteps rules [updateObject] p).2
    (∀ key, key ≠ p.object.key → q.world.store.objects[key]? = p.world.store.objects[key]?) ∧
      (q.world.store.objects[p.object.key]?.map Owner.declaration = some stored.declaration ∨
        q.world.store.objects[p.object.key]?.map Owner.declaration =
          some p.object.declaration ∨
        q.world.store.objects[p.object.key]? = none ∧
          ObjectStore.isReleased p.object.metadata = true) := by
  intro q
  have hstatus : Pass.Reports ((storeObject rules).runFrom p).2 q := by
    dsimp only [q]
    rw [closing_eq, Act.runFrom_bind]
    rcases (storeObject rules).runFrom p with ⟨failure | _, after⟩
    · exact Pass.reports_chains.refl after
    · exact moves_reports_storeStatus rules after
  obtain hkept | ⟨current, hcurrent, hwritten⟩ := storeObject_cases rules p
  · rw [hkept] at hstatus
    exact ⟨hstatus.others, .inl (by rw [hstatus.own, hstored]; rfl)⟩
  obtain rfl : current = stored :=
    Option.some.inj ((ObjectStore.getElem?_of_current hcurrent).symm.trans hstored)
  rw [hwritten] at hstatus
  have hobjects : (p.world.store.update p.object).2.objects =
      if ObjectStore.isReleased p.object.metadata then p.world.store.objects.erase p.object.key
      else p.world.store.objects.insert p.object.key (ObjectStore.updated current p.object) := by
    simp only [ObjectStore.update, hcurrent]
    rw [show ObjectStore.isReleased (ObjectStore.updated current p.object).metadata =
      ObjectStore.isReleased p.object.metadata by
        simp [ObjectStore.isReleased, ObjectStore.updated, ObjectMeta.isDeleting, hdeletion]]
  have hown := hstatus.own
  have hothers := hstatus.others
  dsimp only at hown hothers
  rw [show (p.object.withVersion (p.object.metadata.resourceVersion + 1)).key = p.object.key from
    rfl, hobjects] at hown hothers
  refine ⟨fun key hne => (hothers key hne).trans ?_, .inr ?_⟩
  · split <;> simp [Std.ExtTreeMap.getElem?_erase, Std.ExtTreeMap.getElem?_insert, hne.symm]
  cases hreleased : ObjectStore.isReleased p.object.metadata with
  | true => exact .inr ⟨by simpa [hreleased] using hown, rfl⟩
  | false =>
      have hdeclared : (ObjectStore.updated current p.object).declaration =
          p.object.declaration := by
        simp [Owner.declaration, ObjectStore.updated, Owner.withVersion, Owner.mapMeta,
          ← hdeletion]
      exact .inl (by simpa [hreleased, hdeclared] using hown)

end Lifecycle

/-! ## The whole pass -/

/-- A value that may have been filled in where none was given. -/
def FilledIn {α : Type} (before after : Option α) : Prop :=
  after = before ∨ before = none ∧ after.isSome = true

theorem filledIn_getD {α : Type} (before : Option α) (value : α) :
    FilledIn before (some (before.getD value)) := by
  cases before with
  | none => exact .inr ⟨rfl, rfl⟩
  | some given => exact .inl rfl

/-- A descriptor that differs from another one in what that one leaves open. -/
structure Descriptor.Completes (declared filled : Descriptor) : Prop where
  displayName : FilledIn declared.displayName filled.displayName
  deletionPolicy : FilledIn declared.deletionPolicy filled.deletionPolicy
  creationPolicy : FilledIn declared.creationPolicy filled.creationPolicy
  repoType : FilledIn declared.repoType filled.repoType
  rest : filled = { declared with
    displayName := filled.displayName
    deletionPolicy := filled.deletionPolicy
    creationPolicy := filled.creationPolicy
    repoType := filled.repoType }

theorem completes_completedTemplate (o : Owner) (deletion : DeletionPolicy)
    (creation : CreationPolicy) (declared : Descriptor) :
    declared.Completes (completedTemplate o deletion creation declared) :=
  ⟨filledIn_getD _ _, filledIn_getD _ _, filledIn_getD _ _, filledIn_getD _ _, rfl⟩

namespace Reconciler

variable {σ : Type}

/-- What a pass over an object may write in its place, but for the version and the status. -/
structure Written (r : Reconciler σ) (o after : Owner) : Prop where
  name : after.metadata.name = o.metadata.name
  space : after.metadata.space = o.metadata.space
  labels : after.metadata.labels = o.metadata.labels
  deletionTimestamp : after.metadata.deletionTimestamp = o.metadata.deletionTimestamp
  spec : after.spec = o.spec ∨ ∃ declared filled, o.spec.gitTemplate = some declared ∧
    declared.Completes filled ∧ after.spec = { o.spec with gitTemplate := some filled }
  finalizers : after.metadata.finalizers = o.metadata.finalizers ∨
    (o.isDeleting = false ∧ ∃ name, r.settings.finalizer = some name ∧
      name ∉ o.metadata.finalizers ∧
      after.metadata.finalizers = o.metadata.finalizers ++ [name]) ∨
    (o.isDeleting = true ∧ ∃ name, r.settings.finalizer = some name ∧
      after.metadata.finalizers = o.metadata.finalizers.filter (· ≠ name)) ∨
    (r.settings.finalizer = none ∧
      after.metadata.finalizers = o.metadata.finalizers.filter (· ≠ defaultFinalizerName))
  annotations : after.metadata.annotations = o.metadata.annotations ∨
    o.isDeleting = false ∧ r.settings.deletionProtection = true ∧
      protectionKey ∉ o.metadata.annotations ∧
      after.metadata.annotations = o.metadata.annotations.insert protectionKey "true"

/-- What a pass over an object may write in the store: the object is there as the pass may write it,
or it was being deleted and nothing keeps it, and other objects are as they were. -/
structure Wrote (r : Reconciler σ) (o : Owner) (before after : ObjectStore) : Prop where
  own : ∀ stored, after.objects[o.key]? = some stored → r.Written o stored
  gone : after.objects[o.key]? = none →
    o.isDeleting = true ∧ o.metadata.finalizers.filter (· ≠ r.expectedFinalizer) = []
  others : ∀ key, key ≠ o.key → after.objects[key]? = before.objects[key]?

variable {r : Reconciler σ} {o a b : Owner} {w : World σ}

theorem Written.refl (r : Reconciler σ) (o : Owner) : r.Written o o :=
  ⟨rfl, rfl, rfl, rfl, .inl rfl, .inl rfl, .inl rfl⟩

/-- Version and status do not matter. -/
theorem Written.congr (h : r.Written o a) (hsame : b.declaration = a.declaration) :
    r.Written o b := by
  have hspec : b.spec = a.spec := congrArg (·.spec) hsame
  have hfinalizers : b.metadata.finalizers = a.metadata.finalizers :=
    congrArg (·.metadata.finalizers) hsame
  have hannotations : b.metadata.annotations = a.metadata.annotations :=
    congrArg (·.metadata.annotations) hsame
  exact ⟨(congrArg (·.metadata.name) hsame).trans h.name,
    (congrArg (·.metadata.space) hsame).trans h.space,
    (congrArg (·.metadata.labels) hsame).trans h.labels,
    (congrArg (·.metadata.deletionTimestamp) hsame).trans h.deletionTimestamp,
    hspec ▸ h.spec, hfinalizers ▸ h.finalizers, hannotations ▸ h.annotations⟩

/-- The object in hand when the work on the repository begins. -/
theorem written_admitted (r : Reconciler σ) (o : Owner) : r.Written o (r.admitted o) := by
  unfold admitted Lifecycle.protect
  split
  · rename_i hprotect
    obtain ⟨hwanted, hliving⟩ : r.settings.deletionProtection = true ∧ o.isDeleting = false := by
      simpa using hprotect
    split
    · exact .refl r o
    · exact ⟨rfl, rfl, rfl, rfl, .inl rfl, .inl rfl, .inr ⟨hliving, hwanted, ‹_›, rfl⟩⟩
  · exact .refl r o

theorem Written.withTemplate {declared repo : Descriptor} (h : r.Written o a)
    (hspec : a.spec = o.spec) (hdeclared : o.spec.gitTemplate = some declared)
    (hrepo : declared.Completes repo) : r.Written o (a.withTemplate repo) :=
  { h with spec := .inr ⟨declared, repo, hdeclared, hrepo, by rw [Owner.withTemplate, hspec]⟩ }

/-- The finalizers are set last, on an object that has those that it had before the pass. -/
theorem Written.finalize (h : r.Written o a)
    (hfinalizers : a.metadata.finalizers = o.metadata.finalizers) :
    r.Written o (a.mapMeta (Lifecycle.finalize (r.rules o) o.isDeleting)) := by
  unfold Lifecycle.finalize
  cases hname : r.settings.finalizer with
  | none =>
      simp only [rules, hname]
      exact { h with finalizers := .inr (.inr (.inr ⟨hname, by
        simp [Owner.mapMeta, ObjectMeta.removeFinalizer, hfinalizers]⟩)) }
  | some name =>
      simp only [rules, hname]
      cases hdeleting : o.isDeleting with
      | true =>
          exact { h with finalizers := .inr (.inr (.inl ⟨hdeleting, name, hname, by
            simp [Owner.mapMeta, ObjectMeta.removeFinalizer, hfinalizers]⟩)) }
      | false =>
          by_cases hthere : name ∈ o.metadata.finalizers
          · simpa [Owner.mapMeta, ObjectMeta.addFinalizer, ObjectMeta.hasFinalizer, hfinalizers,
              hthere] using h
          · have hadded : a.mapMeta (fun m => m.addFinalizer name) =
                a.mapMeta fun m => { m with finalizers := m.finalizers ++ [name] } := by
              simp [Owner.mapMeta, ObjectMeta.addFinalizer, ObjectMeta.hasFinalizer, hfinalizers,
                hthere]
            simp only [Bool.false_eq_true, if_false, hadded]
            exact { h with finalizers := .inr (.inl ⟨hdeleting, name, hname, hthere, by
              simp [Owner.mapMeta, hfinalizers]⟩) }

/-- The object in hand before the work on the repository writes anything. -/
structure Started (r : Reconciler σ) (o : Owner) (w : World σ) (start : Pass σ) : Prop where
  world : start.world = w
  deleted : start.deleted = o.isDeleting
  key : start.object.key = o.key
  finalizers : start.object.metadata.finalizers = o.metadata.finalizers
  written : r.Written o start.object

theorem started_work (r : Reconciler σ) (o : Owner) (w : World σ) :
    ∃ start, Started r o w start ∧
      Pass.Reports start (r.convergence.converge.runFrom (r.opening o w)).2 := by
  obtain ⟨start, hstart, hreports⟩ :=
    Convergence.reports_converge r.convergence (r.opening o w)
  refine ⟨start, ?_, hreports⟩
  obtain rfl | ⟨repo, hrepo, rfl⟩ := hstart
  · exact ⟨rfl, rfl, key_admitted r o, finalizers_admitted r o, written_admitted r o⟩
  · obtain ⟨declared, hdeclared, rfl⟩ := Option.map_eq_some_iff.1 hrepo
    refine ⟨rfl, rfl, key_admitted r o, finalizers_admitted r o, ?_⟩
    exact (written_admitted r o).withTemplate (spec_admitted r o)
      (spec_admitted r o ▸ hdeclared) (completes_completedTemplate _ _ _ _)

/-- The finalizers that a deletion leaves. -/
theorem finalizers_of_isDeleting (hdeleting : o.isDeleting = true)
    (hfinalizers : a.metadata.finalizers = o.metadata.finalizers) :
    (a.mapMeta (Lifecycle.finalize (r.rules o) o.isDeleting)).metadata.finalizers =
      o.metadata.finalizers.filter (· ≠ r.expectedFinalizer) := by
  unfold Lifecycle.finalize expectedFinalizer
  cases hname : r.settings.finalizer <;>
    simp [rules, hname, hdeleting, Owner.mapMeta, ObjectMeta.removeFinalizer, hfinalizers]

/-- What the closing leaves of the object, when the work has been done. -/
theorem wrote_closing {start p : Pass σ} (hstored : w.store.objects[o.key]? = some o)
    (hstart : Started r o w start) (hreports : Pass.Reports start p) :
    r.Wrote o w.store
      (runSteps (r.rules o) [Lifecycle.updateObject] (r.finalized o p)).2.world.store := by
  have hfinalizers : p.object.metadata.finalizers = o.metadata.finalizers :=
    (congrArg (·.metadata.finalizers) hreports.object).trans hstart.finalizers
  have hobject : (r.finalized o p).object =
      p.object.mapMeta (Lifecycle.finalize (r.rules o) o.isDeleting) := by
    rw [finalized, hreports.deleted, hstart.deleted]
  have hwritten : r.Written o (r.finalized o p).object := by
    rw [hobject]
    exact (hstart.written.congr hreports.object).finalize hfinalizers
  have hkey : (r.finalized o p).object.key = o.key := by
    rw [Owner.key, hwritten.name, hwritten.space, Owner.key]
  -- what is stored by then is the object as it was declared
  have hown := hreports.own
  rw [hstart.key, hstart.world, hstored] at hown
  obtain ⟨stored, hfound, hsame⟩ := Option.map_eq_some_iff.1 hown
  have hdeletion : stored.metadata.deletionTimestamp = o.metadata.deletionTimestamp :=
    congrArg (·.metadata.deletionTimestamp) hsame
  obtain ⟨hothers, hcases⟩ := Lifecycle.closing_writes (p := r.finalized o p) (r.rules o)
    (by rw [hkey, finalized_world, hfound]) (hwritten.deletionTimestamp.trans hdeletion.symm)
  rw [hkey] at hothers hcases
  refine ⟨fun after hafter => ?_, fun hnone => ?_, fun key hne => ?_⟩
  · rw [hafter] at hcases
    obtain hcase | hcase | hcase := hcases
    · exact (Written.refl r o).congr ((Option.some.inj hcase).trans hsame)
    · exact hwritten.congr (Option.some.inj hcase)
    · cases hcase.1
  · rw [hnone] at hcases
    obtain hcase | hcase | ⟨-, hreleased⟩ := hcases
    · cases hcase
    · cases hcase
    · have hmeta : (r.finalized o p).object.metadata.isDeleting = o.isDeleting := by
        rw [ObjectMeta.isDeleting, hwritten.deletionTimestamp]
        rfl
      rw [ObjectStore.isReleased, Bool.and_eq_true, hmeta, List.isEmpty_iff] at hreleased
      refine ⟨hreleased.1, ?_⟩
      rw [← finalizers_of_isDeleting hreleased.1 hfinalizers, ← hobject]
      exact hreleased.2
  · have hwork := hreports.others key (hstart.key ▸ hne)
    rw [hstart.world] at hwork
    rw [hothers key hne, finalized_world, hwork]

/-- Where nothing that is declared has changed, the pass may have written it. -/
theorem wrote_of_reports {start p : Pass σ} (hstored : w.store.objects[o.key]? = some o)
    (hstart : Started r o w start) (hreports : Pass.Reports start p) :
    r.Wrote o w.store p.world.store := by
  obtain ⟨-, -, hown, hothers⟩ := hreports
  rw [hstart.key, hstart.world, hstored] at hown
  rw [hstart.key, hstart.world] at hothers
  refine ⟨fun stored hfound => ?_, fun hnone => ?_, hothers⟩
  · rw [hfound] at hown
    exact (Written.refl r o).congr (Option.some.inj hown)
  · rw [hnone] at hown
    cases hown

/-- Whatever becomes of a pass over a fresh copy, it has written what it may write. -/
theorem wrote_of_reconcile (hstored : w.store.objects[o.key]? = some o) :
    r.Wrote o w.store (r.reconcile o w).2.world.store := by
  by_cases hallowed : o.isDeleting = true → Lifecycle.isAllowed (r.rules o) o = true
  · obtain ⟨start, hstart, hreports⟩ := started_work r o w
    rw [reconcile_of_admitted r o w hallowed]
    rcases hrun : r.convergence.converge.runFrom (r.opening o w) with ⟨cause | _, p⟩ <;>
      rw [hrun] at hreports <;> dsimp only at hreports ⊢
    · exact wrote_of_reports hstored hstart hreports
    · have hclosing := wrote_closing hstored hstart hreports
      generalize runSteps (r.rules o) [Lifecycle.updateObject] (r.finalized o p) = closed
        at hclosing ⊢
      exact hclosing
  · obtain ⟨hdeleting, hrefused⟩ := Classical.not_imp.1 hallowed
    rw [reconcile_of_refused r o w hdeleting (Bool.eq_false_iff.2 hrefused)]
    refine ⟨fun stored hfound => ?_, fun hnone => ?_, fun _ _ => rfl⟩
    · obtain rfl := Option.some.inj (hfound.symm.trans hstored)
      exact .refl r stored
    · cases hnone.symm.trans hstored

/-- The object goes once its finalizer is off. -/
theorem wrote_sampleLeaver :
    let o := sampleLeaver.withVersion 1
    let w := { sampleWorld (({} : Forge.Memory.State).seedProject sampleSite "acme/r") with
      store := (({} : ObjectStore).insert sampleLeaver).2 }
    let after := (sampleReconciler.reconcile o w).2.world.store
    w.store.objects[o.key]? = some o ∧ sampleReconciler.Wrote o w.store after ∧
      after.objects[o.key]? = none := by
  intro o w after
  have hstored : w.store.objects[o.key]? = some o := by decide +kernel
  exact ⟨hstored, wrote_of_reconcile hstored, by decide +kernel⟩

end Reconciler

end ForgeSync
