import ForgeSync.Proofs.Pass.Footprint

/-!
# What a pass stores

A pass on a fresh copy writes to the store in two places only. A failure to create the repository or
to commit its files sets the stored phase to `failed`, and the closing stores what has changed of
the object. While no failure awaits the store itself, both writes succeed.

Main statements: `ends_converge` says what the work on the repository leaves of store and object,
and `closing_of_held` what the closing stores.
-/

namespace ForgeSync

/-! ## Writes on current data -/

namespace ObjectStore

variable {store : ObjectStore} {o stored : Owner}

theorem current_of_version (hstored : store.objects[o.key]? = some stored)
    (hversion : o.metadata.resourceVersion = stored.metadata.resourceVersion) :
    store.current o = .ok stored := by
  simp [current, hstored, hversion]

/-- The store after the phase of an object that it holds was set to `failed`. -/
def markFailed (store : ObjectStore) (o : Owner) : ObjectStore where
  objects := store.objects.insert o.key
    ((o.withPhase .failed).withVersion (o.metadata.resourceVersion + 1))
  writes := store.writes + 1

end ObjectStore

namespace World

variable {σ : Type} {w : World σ} {o s : Owner}

/-- Where no failure awaits the store, it decides alone. -/
theorem runFrom_updateObject_eq (hfaults : w.faults = {}) :
    (updateObject o).runFrom w =
      ((w.store.update o).1, { w with store := (w.store.update o).2 }) := by
  have hnone : w.faults.update = none := by rw [hfaults]
  simp only [updateObject, guarded, Act.runFrom_ofFunction, hnone]

theorem runFrom_updateStatus_eq (hfaults : w.faults = {}) :
    (updateStatus o).runFrom w =
      ((w.store.updateStatus o).1, { w with store := (w.store.updateStatus o).2 }) := by
  have hnone : w.faults.updateStatus = none := by rw [hfaults]
  simp only [updateStatus, guarded, Act.runFrom_ofFunction, hnone]

theorem runFrom_storeToken (hfaults : w.faults = {}) (path : String) (grant : AccessTokenGrant)
    (token : String) :
    (storeToken path grant token).runFrom w =
      (.ok (), { w with vault := w.vault.store path grant token }) := by
  have hnone : w.faults.storeToken = none := by rw [hfaults]
  simp only [storeToken, guarded, Act.runFrom_ofFunction, hnone]

theorem runFrom_updateObject (hfaults : w.faults = {})
    (hstored : w.store.objects[o.key]? = some s)
    (hversion : o.metadata.resourceVersion = s.metadata.resourceVersion) :
    (updateObject o).runFrom w =
      (.ok (ObjectStore.updated s o),
        { w with
          store :=
            { objects :=
                if ObjectStore.isReleased (ObjectStore.updated s o).metadata then
                  w.store.objects.erase o.key
                else w.store.objects.insert o.key (ObjectStore.updated s o)
              writes := w.store.writes + 1 } }) := by
  simp [runFrom_updateObject_eq hfaults, ObjectStore.update,
    ObjectStore.current_of_version hstored hversion]

theorem runFrom_updateStatus (hfaults : w.faults = {})
    (hstored : w.store.objects[o.key]? = some s)
    (hversion : o.metadata.resourceVersion = s.metadata.resourceVersion) :
    (updateStatus o).runFrom w =
      (.ok (ObjectStore.statusUpdated s o),
        { w with
          store :=
            { objects := w.store.objects.insert o.key (ObjectStore.statusUpdated s o)
              writes := w.store.writes + 1 } }) := by
  simp [runFrom_updateStatus_eq hfaults, ObjectStore.updateStatus,
    ObjectStore.current_of_version hstored hversion]

/-- A write that the store refuses changes nothing. -/
theorem runFrom_updateObject_of_refused {failure : Failure} (hfaults : w.faults = {})
    (h : w.store.current o = .error failure) :
    (updateObject o).runFrom w = (.error failure, w) := by
  rw [runFrom_updateObject_eq hfaults, ObjectStore.update_of_stale h]

theorem runFrom_updateStatus_of_refused {failure : Failure} (hfaults : w.faults = {})
    (h : w.store.current o = .error failure) :
    (updateStatus o).runFrom w = (.error failure, w) := by
  rw [runFrom_updateStatus_eq hfaults, ObjectStore.updateStatus_of_stale h]

theorem runFrom_updateStatus_of_absent (hfaults : w.faults = {})
    (habsent : w.store.objects[o.key]? = none) :
    (updateStatus o).runFrom w = (.error (.notFound (o.kind.name ++ " " ++ o.key)), w) :=
  runFrom_updateStatus_of_refused hfaults (by simp [ObjectStore.current, habsent])

end World

/-! ## Passes on a copy that is current -/

namespace Pass

variable {σ : Type}

theorem runFrom_onWorld {α : Type} {act : Act (World σ) α} {p : Pass σ}
    {outcome : Except Failure α} {w : World σ} (h : act.runFrom p.world = (outcome, w)) :
    (act.within onWorld).runFrom p = (outcome, { p with world := w }) := by
  rw [Act.runFrom_within]
  simp [onWorld, h]

/-- The pass is about an object as it is stored: no write has come between. -/
structure IsCurrent (o : Owner) (p : Pass σ) : Prop where
  faults : p.world.faults = {}
  stored : p.world.store.objects[o.key]? = some o
  key : p.object.key = o.key
  version : p.object.metadata.resourceVersion = o.metadata.resourceVersion

/-- The pass is about an object as it is stored, and of the status only the phase may differ. -/
structure Holds (o : Owner) (p : Pass σ) : Prop extends IsCurrent o p where
  status : (p.object.withPhase .failed).status = (o.withPhase .failed).status

theorem Holds.set {o : Owner} {p : Pass σ} (h : p.Holds o) (backend : σ) :
    (onBackend.set backend p).Holds o :=
  ⟨⟨h.faults, h.stored, h.key, h.version⟩, h.status⟩

/-- Only the backend, the vault and the status of the object may differ. -/
structure Keeps (p q : Pass σ) : Prop where
  store : q.world.store = p.world.store
  secrets : q.world.secrets = p.world.secrets
  faults : q.world.faults = p.world.faults
  deleted : q.deleted = p.deleted
  metadata : q.object.metadata = p.object.metadata
  spec : q.object.spec = p.object.spec

theorem keeps_chains : Act.Chains (Keeps (σ := σ)) where
  refl _ := ⟨rfl, rfl, rfl, rfl, rfl, rfl⟩
  trans h h' := ⟨h'.store.trans h.store, h'.secrets.trans h.secrets, h'.faults.trans h.faults,
    h'.deleted.trans h.deleted, h'.metadata.trans h.metadata, h'.spec.trans h.spec⟩

theorem keeps_set (backend : σ) (p : Pass σ) : Keeps p (onBackend.set backend p) :=
  ⟨rfl, rfl, rfl, rfl, rfl, rfl⟩

theorem moves_keeps_onBackend {α : Type} (act : Act σ α) :
    Act.Moves Keeps (act.within (onBackend (σ := σ))) :=
  fun p => keeps_set _ p

theorem moves_keeps_mapStatus (f : RepoStatus → RepoStatus) :
    Act.Moves Keeps (modifyObject (σ := σ) (·.mapStatus f)) :=
  fun _ => ⟨rfl, rfl, rfl, rfl, rfl, rfl⟩

theorem moves_keeps_storeToken (path : String) (grant : AccessTokenGrant) (token : String) :
    Act.Moves Keeps ((World.storeToken path grant token).within (onWorld (σ := σ))) := by
  intro p
  rw [Act.runFrom_within, World.storeToken, World.guarded, Act.runFrom_ofFunction]
  dsimp only
  split <;> exact ⟨rfl, rfl, rfl, rfl, rfl, rfl⟩

end Pass

namespace Convergence

variable {σ : Type} {c : Convergence σ} {p : Pass σ} {o : Owner} {repo : Descriptor}
  {connection : Connection} {forge : Forge σ}

/-! ## Failures that are recorded at once -/

theorem ends_failWith {α : Type} (cause : Failure) (h : p.Holds o) :
    (failWith cause : Act (Pass σ) α).Ends p (fun _ _ => False)
      fun failure q =>
        failure = cause ∧ q.world = { p.world with store := p.world.store.markFailed o } := by
  have hrun := Pass.runFrom_onWorld (p := { p with object := p.object.withPhase .failed })
    (World.runFrom_updateStatus (o := p.object.withPhase .failed) (s := o) h.faults
      ((congrArg (p.world.store.objects[·]?) h.key).trans h.stored) h.version)
  unfold failWith
  simp only [Pass.modifyObject, Act.ends_bind, Act.ends_modify, Act.ends_get, Act.ends_attempt]
  rw [Act.ends_of_ok hrun]
  refine ⟨rfl, ?_⟩
  simp only [ObjectStore.markFailed, ObjectStore.statusUpdated, h.status]
  rw [← h.key]
  rfl

theorem ends_recording {α : Type} {act : Act σ α} (h : p.Holds o) :
    (recording (act.within Pass.onBackend)).Ends p
      (fun _ q => ∃ backend, q = Pass.onBackend.set backend p)
      fun _ q => q.world.store = p.world.store.markFailed o := by
  unfold recording
  rw [Act.ends_bind, Act.ends_attempt, Act.ends_within]
  unfold Act.Ends
  rcases act.runFrom (Pass.onBackend.get p) with ⟨cause | a, after⟩
  · apply (ends_failWith cause (h.set after)).mono (fun _ _ => False.elim)
    intro failure q hend
    obtain ⟨-, hworld⟩ := hend
    rw [hworld]
    rfl
  · exact ⟨after, rfl⟩

/-! ## The work on the repository -/

theorem moves_keeps_settleVariables :
    Act.Moves Pass.Keeps (settleVariables forge repo) :=
  moves_settleVariables_of Pass.keeps_chains (Pass.moves_keeps_onBackend _ ·)
    (Pass.moves_keeps_mapStatus _)

theorem moves_keeps_grantToken : Act.Moves Pass.Keeps (c.grantToken forge repo) :=
  moves_grantToken_of Pass.keeps_chains (fun p _ _ => Pass.moves_keeps_onBackend _ p)
    (Pass.moves_keeps_storeToken _) fun _ => Pass.moves_keeps_mapStatus _

theorem moves_keeps_finish : Act.Moves Pass.Keeps (c.finish connection forge repo) :=
  Pass.keeps_chains.moves_bind moves_keeps_settleVariables fun _ =>
    Pass.keeps_chains.moves_bind moves_keeps_grantToken fun _ => Pass.moves_keeps_mapStatus _

/-- What a failure of the work on a living repository leaves of the store. -/
def LeftStore (o : Owner) (before after : ObjectStore) : Prop :=
  after = before ∨ after = before.markFailed o

theorem ends_fill (h : p.Holds o) (existed : Bool) :
    (c.fill connection forge repo existed).Ends p (fun _ q => Pass.Keeps p q)
      fun _ q => LeftStore o p.world.store q.world.store := by
  have hkeeps : ∀ {q : Pass σ} {act : Act (Pass σ) Unit}, Act.Moves Pass.Keeps act →
      Pass.Keeps p q → act.Ends q (fun _ after => Pass.Keeps p after)
        fun _ after => LeftStore o p.world.store after.world.store := fun hact hq =>
    (hact.ends _).mono (fun _ _ hmoved => Pass.keeps_chains.trans hq hmoved)
      fun _ _ hmoved => .inl (hmoved.store.trans hq.store)
  unfold fill
  apply ((ends_recording h).mono (fun _ _ hok => hok) fun _ _ => .inr).bind
  intro _ q hend
  obtain ⟨backend, rfl⟩ := hend
  have hq := Pass.keeps_set backend p
  dsimp only
  split
  · exact hkeeps (Pass.keeps_chains.moves_bind (Pass.moves_keeps_onBackend _)
      fun _ => moves_keeps_finish) hq
  · exact hkeeps moves_keeps_finish hq

theorem ends_createMissing (h : p.Holds o) :
    (createMissing forge repo).Ends p (fun _ q => q.Holds o ∧ Pass.Keeps p q)
      fun _ q => LeftStore o p.world.store q.world.store := by
  have hcreate : ((Pass.modifyObject (·.withPhase .creating) >>= fun _ =>
      recording ((forge.createRepository repo).within Pass.onBackend)) : Act (Pass σ) Unit).Ends p
      (fun _ q => q.Holds o ∧ Pass.Keeps p q)
      fun _ q => LeftStore o p.world.store q.world.store := by
    rw [Act.ends_bind, Pass.modifyObject, Act.ends_modify]
    have hcreating : Pass.Holds o { p with object := p.object.withPhase .creating } :=
      ⟨⟨h.faults, h.stored, h.key, h.version⟩, h.status⟩
    refine (ends_recording hcreating).mono ?_ fun _ _ => .inr
    intro _ q hend
    obtain ⟨backend, rfl⟩ := hend
    exact ⟨hcreating.set backend, rfl, rfl, rfl, rfl, rfl, rfl⟩
  unfold createMissing
  dsimp only
  split
  · rw [Act.ends_bind]
    exact .inl rfl
  · exact hcreate

theorem ends_convergeRepository (h : p.Holds o) (existed : Bool) :
    (c.convergeRepository connection forge repo existed).Ends p (fun _ q => Pass.Keeps p q)
      fun _ q => LeftStore o p.world.store q.world.store := by
  rw [convergeRepository_eq]
  split
  · exact ends_fill h existed
  · apply (ends_createMissing h).bind
    intro _ q hend
    obtain ⟨hq, hkeeps⟩ := hend
    apply (ends_fill hq existed).mono (fun _ _ => Pass.keeps_chains.trans hkeeps)
    intro _ after hafter
    rwa [hkeeps.store] at hafter

theorem ends_convergeOn (h : p.Holds o) :
    (c.convergeOn connection forge repo).Ends p (fun _ q => Pass.Keeps p q)
      fun _ q => q.world.store = p.world.store ∨
        p.deleted = false ∧ q.world.store = p.world.store.markFailed o := by
  cases hdeleted : p.deleted with
  | true =>
      unfold Act.Ends
      rw [convergeOn_of_deleted hdeleted]
      have hkeeps := Pass.moves_keeps_onBackend (retire forge repo) p
      rcases hrun : ((retire forge repo).within Pass.onBackend).runFrom p with ⟨_ | _, after⟩
      · rw [hrun] at hkeeps
        exact .inl hkeeps.store
      · rwa [hrun] at hkeeps
  | false =>
      unfold Act.Ends
      rw [convergeOn_of_living hdeleted]
      have hread : ∃ outcome backend,
          ((forge.readRepository repo).within Pass.onBackend).runFrom p =
            (outcome, Pass.onBackend.set backend p) := ⟨_, _, Act.runFrom_within _ _ _⟩
      obtain ⟨failure | remote, backend, hread⟩ := hread
      · rw [hread]
        exact .inl rfl
      · rw [hread]
        refine ((ends_convergeRepository (h.set backend) remote.isSome).mono
          (fun _ _ => Pass.keeps_chains.trans (Pass.keeps_set backend p)) ?_)
        exact fun _ after hafter => hafter.imp_right fun hmarked => ⟨rfl, hmarked⟩

end Convergence

/-! ## The closing -/

namespace Lifecycle

variable {σ : Type} {o : Owner} {p : Pass σ} {rules : Rules}

/-- A pass that is ready to be stored: the object is current, and no step has touched its deletion
mark. -/
structure Ready (o : Owner) (p : Pass σ) : Prop extends p.IsCurrent o where
  deletion : p.object.metadata.deletionTimestamp = o.metadata.deletionTimestamp
  deleted : p.deleted = o.isDeleting

/-- The object that a write of metadata and spec stores. -/
def nextObject (o : Owner) (p : Pass σ) : Owner :=
  { p.object.withVersion (o.metadata.resourceVersion + 1) with status := o.status }

theorem ends_storeObject (h : Ready o p) (hinitial : rules.initial = o) :
    (storeObject rules).Ends p
      (fun _ q => q = if p.object.metadata = o.metadata ∧ p.object.spec = o.spec then p else
        { p with
          object := p.object.withVersion (o.metadata.resourceVersion + 1)
          world := { p.world with store :=
            { objects :=
                if ObjectStore.isReleased p.object.metadata then p.world.store.objects.erase o.key
                else p.world.store.objects.insert o.key (nextObject o p)
              writes := p.world.store.writes + 1 } } })
      fun _ _ => False := by
  have hrun := Pass.runFrom_onWorld (p := p) (World.runFrom_updateObject h.faults
    ((congrArg (p.world.store.objects[·]?) h.key).trans h.stored) h.version)
  have hnext : ObjectStore.updated o p.object = nextObject o p := by
    simp [ObjectStore.updated, nextObject, Owner.withVersion, Owner.mapMeta, h.version, h.deletion]
  unfold storeObject
  rw [Act.ends_bind, Act.ends_get, hinitial]
  dsimp only
  by_cases hsame : p.object.metadata = o.metadata ∧ p.object.spec = o.spec
  · rw [if_neg (by simp [hsame]), if_pos hsame]
    rfl
  · rw [if_pos (Classical.not_and_iff_not_or_not.1 hsame), if_neg hsame, Act.ends_bind,
      Act.ends_of_ok hrun, hnext, h.key]
    rfl

/-- The stored object has all of the object of the pass but its status. -/
theorem ends_storeStatus {s : Owner} (hfaults : p.world.faults = {})
    (hinitial : rules.initial = o) (hkey : p.object.key = o.key)
    (hstored : p.world.store.objects[o.key]? = some s)
    (hsame : s = { p.object with status := o.status }) :
    (storeStatus rules).Ends p
      (fun _ q => q = if p.object.status = o.status then p else
        let next := p.object.withVersion (p.object.metadata.resourceVersion + 1)
        { p with
          object := next
          world := { p.world with store :=
            { objects := p.world.store.objects.insert o.key next
              writes := p.world.store.writes + 1 } } })
      fun _ _ => False := by
  have hrun := Pass.runFrom_onWorld (p := p) (World.runFrom_updateStatus (s := s) hfaults
    ((congrArg (p.world.store.objects[·]?) hkey).trans hstored) (by rw [hsame]))
  unfold storeStatus
  rw [Act.ends_bind, Act.ends_get, hinitial]
  dsimp only
  by_cases hstatus : p.object.status = o.status
  · rw [if_neg (by simpa using hstatus), if_pos hstatus]
    rfl
  · rw [if_pos hstatus, if_neg hstatus, Act.ends_bind, Act.ends_attempt, Act.ends_of_ok hrun, hkey,
      hsame]
    rfl

/-- The object that is being deleted may be gone by then. -/
theorem ends_storeStatus_of_absent (hfaults : p.world.faults = {}) (hkey : p.object.key = o.key)
    (habsent : p.world.store.objects[o.key]? = none) (hdeleted : p.deleted = true) :
    (storeStatus rules).Ends p (fun _ q => q = p) fun _ _ => False := by
  have hrun := Pass.runFrom_onWorld (p := p) (World.runFrom_updateStatus_of_absent hfaults
    ((congrArg (p.world.store.objects[·]?) hkey).trans habsent))
  unfold storeStatus
  rw [Act.ends_bind, Act.ends_get]
  split
  · rw [Act.ends_bind, Act.ends_attempt, Act.ends_of_error hrun]
    dsimp only
    rw [if_pos (by simp [Failure.isNotFound, hdeleted])]
    exact rfl
  · exact rfl

/-- What the closing of a pass comes to. -/
structure Closed (o : Owner) (p q : Pass σ) : Prop where
  world : q.world = { p.world with store := q.world.store }
  others : ∀ key, key ≠ o.key → q.world.store.objects[key]? = p.world.store.objects[key]?
  unchanged : p.object = o → q = p
  /-- Whatever is stored is the object of the pass, as some version. -/
  stored : ∀ stored, q.world.store.objects[o.key]? = some stored →
    ∃ version, stored = p.object.withVersion version
  present : ObjectStore.isReleased p.object.metadata = false →
    ∃ stored, q.world.store.objects[o.key]? = some stored

theorem Closed.of_insert {q : Pass σ} {writes version : Nat} {objects : Table Owner}
    (hobjects : objects = p.world.store.objects ∨
      ∃ stored, objects = p.world.store.objects.insert o.key stored)
    (hq : q = { p with
      object := p.object.withVersion version
      world := { p.world with store :=
        { objects := objects.insert o.key (p.object.withVersion version), writes } } })
    (hchanged : p.object ≠ o) : Closed o p q := by
  subst hq
  refine ⟨rfl, fun key hkey => ?_, fun hsame => (hchanged hsame).elim, fun stored hstored => ?_,
    fun _ => ⟨_, Std.ExtTreeMap.getElem?_insert_self⟩⟩
  · rcases hobjects with rfl | ⟨stored, rfl⟩ <;> simp [Std.ExtTreeMap.getElem?_insert, hkey.symm]
  · rw [Std.ExtTreeMap.getElem?_insert_self, Option.some.injEq] at hstored
    exact ⟨version, hstored.symm⟩

theorem ends_store (h : Ready o p) (hinitial : rules.initial = o) :
    ((do storeObject rules; storeStatus rules : Act (Pass σ) Unit)).Ends p
      (fun _ q => Closed o p q) fun _ _ => False := by
  apply (ends_storeObject h hinitial).bind
  intro _ q heq
  subst heq
  by_cases hsame : p.object.metadata = o.metadata ∧ p.object.spec = o.spec
  · have hagree : o = { p.object with status := o.status } := by
      rcases hobject : p.object with ⟨metadata, spec, status⟩
      simp only [hobject] at hsame
      rw [hsame.1, hsame.2]
    rw [if_pos hsame]
    refine (ends_storeStatus h.faults hinitial h.key h.stored hagree).mono ?_ fun _ _ => id
    intro _ q heq
    subst heq
    by_cases hstatus : p.object.status = o.status
    · have hobject : p.object = o := by rw [hagree, ← hstatus]
      rw [if_pos hstatus]
      refine ⟨rfl, fun _ _ => rfl, fun _ => rfl, fun stored hstored => ?_, fun _ => ⟨o, h.stored⟩⟩
      obtain rfl := Option.some.inj (hstored.symm.trans h.stored)
      exact ⟨stored.metadata.resourceVersion, by rw [hobject]; rfl⟩
    · rw [if_neg hstatus]
      exact .of_insert (.inl rfl) rfl fun hobject => hstatus (by rw [hobject])
  · have hchanged : p.object ≠ o := fun hobject => hsame (by rw [hobject]; exact ⟨rfl, rfl⟩)
    rw [if_neg hsame]
    cases hreleased : ObjectStore.isReleased p.object.metadata with
    | true =>
        -- the object is gone, and there is no status left to store
        have hdeleting : p.deleted = true := by
          simp only [ObjectStore.isReleased, Bool.and_eq_true] at hreleased
          rw [h.deleted, Owner.isDeleting, ObjectMeta.isDeleting, ← h.deletion]
          exact hreleased.1
        refine (ends_storeStatus_of_absent (by exact h.faults) (by exact h.key) (by simp)
          (by exact hdeleting)).mono ?_ fun _ _ => id
        intro _ q heq
        subst heq
        refine ⟨rfl, fun key hkey => ?_, fun hobject => (hchanged hobject).elim, ?_, ?_⟩
        · simp [Std.ExtTreeMap.getElem?_erase, hkey.symm]
        · simp
        · simp [hreleased]
    | false =>
        refine (ends_storeStatus (s := nextObject o p) (by exact h.faults) hinitial
          (by exact h.key) (by simp) rfl).mono ?_ fun _ _ => id
        intro _ q heq
        subst heq
        dsimp only
        split
        · have hnext : nextObject o p = p.object.withVersion (o.metadata.resourceVersion + 1) := by
            rw [nextObject, ← show p.object.status = o.status from ‹_›]
            rfl
          exact .of_insert (.inl rfl) (by rw [hnext]; rfl) hchanged
        · exact .of_insert (.inr ⟨_, rfl⟩) rfl hchanged

theorem closing_of_ready (h : Ready o p) (hinitial : rules.initial = o) :
    ∃ q, runSteps rules [updateObject] p = (.ok {}, q) ∧ Closed o p q := by
  obtain ⟨_, q, hrun, hclosed⟩ := (ends_store h hinitial).exists_ok
  refine ⟨q, runSteps_of_stop ?_ [], hclosed⟩
  simp only [updateObject]
  rw [Act.runFrom_bind, Act.runFrom_attempt, hrun]
  rfl

end Lifecycle

/-! ## The whole pass -/

namespace Lifecycle

/-- Protection changes annotations only. -/
theorem protect_annotations (o : Owner) :
    ∃ annotations, protect o = o.mapMeta fun m => { m with annotations } := by
  unfold protect
  split
  · exact ⟨o.metadata.annotations, rfl⟩
  · exact ⟨_, rfl⟩

/-- The finalizer steps change finalizers only. -/
theorem finalize_finalizers (rules : Rules) (deleted : Bool) (m : ObjectMeta) :
    ∃ finalizers, finalize rules deleted m = { m with finalizers } := by
  unfold finalize
  cases rules.finalizer with
  | none => exact ⟨_, rfl⟩
  | some name =>
      cases deleted with
      | true => exact ⟨_, rfl⟩
      | false =>
          simp only [Bool.false_eq_true, if_false, ObjectMeta.addFinalizer]
          split
          · exact ⟨m.finalizers, rfl⟩
          · exact ⟨_, rfl⟩

end Lifecycle

namespace Convergence

variable {σ : Type} {c : Convergence σ} {p : Pass σ} {o : Owner}

/-- The work on the repository leaves the object in the store alone, and of the object in hand it
changes the template and the status only. -/
structure Worked (c : Convergence σ) (p q : Pass σ) : Prop where
  store : q.world.store = p.world.store
  faults : q.world.faults = p.world.faults
  deleted : q.deleted = p.deleted
  metadata : q.object.metadata = p.object.metadata
  spec : q.object.spec = p.object.spec ∨
    ∃ repo, c.completed p.object = some repo ∧ q.object.spec = (p.object.withTemplate repo).spec

theorem ends_converge (h : p.Holds o) :
    c.converge.Ends p (fun _ q => Worked c p q)
      fun _ q => q.world.store = p.world.store ∨
        p.deleted = false ∧ q.world.store = p.world.store.markFailed o := by
  by_cases haccess : ∃ repo connection forge, Access c p.object p.world repo connection forge
  · obtain ⟨repo, connection, forge, haccess⟩ := haccess
    unfold Act.Ends
    rw [converge_of_access haccess]
    have htemplated : (templated p repo).Holds o :=
      ⟨⟨h.faults, h.stored, h.key, h.version⟩, h.status⟩
    exact (ends_convergeOn htemplated).mono
      (fun _ q hq => ⟨hq.store, hq.faults, hq.deleted, hq.metadata,
        .inr ⟨repo, haccess.template, hq.spec⟩⟩) fun _ _ => id
  · have hstrayed := strayed_of_no_access (c := c) (p := p)
      fun repo connection forge hreached => haccess ⟨repo, connection, forge, hreached⟩
    unfold Act.Ends
    rcases hrun : c.converge.runFrom p with ⟨failure | _, q⟩ <;> rw [hrun] at hstrayed
    · exact .inl (by rw [hstrayed.world])
    · refine ⟨by rw [hstrayed.world], by rw [hstrayed.world], hstrayed.deleted, ?_, ?_⟩
      · obtain rfl | ⟨repo, -, rfl⟩ := hstrayed.object <;> rfl
      · obtain rfl | ⟨repo, hrepo, rfl⟩ := hstrayed.object
        · exact .inl rfl
        · exact .inr ⟨repo, hrepo, rfl⟩

end Convergence

namespace Reconciler

variable {σ : Type} {r : Reconciler σ} {o : Owner} {w : World σ}

/-- A copy of an object as it is stored, in a world whose store does not fail. -/
structure Fetched (o : Owner) (w : World σ) : Prop where
  stored : w.store.objects[o.key]? = some o
  faults : w.faults = {}

theorem admitted_annotations (r : Reconciler σ) (o : Owner) :
    ∃ annotations, r.admitted o = o.mapMeta fun m => { m with annotations } := by
  unfold admitted
  split
  · exact Lifecycle.protect_annotations o
  · exact ⟨o.metadata.annotations, rfl⟩

@[simp] theorem spec_admitted (r : Reconciler σ) (o : Owner) : (r.admitted o).spec = o.spec := by
  obtain ⟨annotations, hadmitted⟩ := admitted_annotations r o
  rw [hadmitted]
  rfl

@[simp] theorem status_admitted (r : Reconciler σ) (o : Owner) :
    (r.admitted o).status = o.status := by
  obtain ⟨annotations, hadmitted⟩ := admitted_annotations r o
  rw [hadmitted]
  rfl

@[simp] theorem key_admitted (r : Reconciler σ) (o : Owner) : (r.admitted o).key = o.key := by
  obtain ⟨annotations, hadmitted⟩ := admitted_annotations r o
  rw [hadmitted]
  rfl

@[simp] theorem finalizers_admitted (r : Reconciler σ) (o : Owner) :
    (r.admitted o).metadata.finalizers = o.metadata.finalizers := by
  obtain ⟨annotations, hadmitted⟩ := admitted_annotations r o
  rw [hadmitted]
  rfl

theorem finalized_finalizers (r : Reconciler σ) (o : Owner) (p : Pass σ) :
    ∃ finalizers, (r.finalized o p).object = p.object.mapMeta fun m => { m with finalizers } := by
  obtain ⟨finalizers, hfinalizers⟩ :=
    Lifecycle.finalize_finalizers (r.rules o) p.deleted p.object.metadata
  exact ⟨finalizers, by dsimp only [finalized, Owner.mapMeta]; rw [hfinalizers]⟩

@[simp] theorem status_finalized (r : Reconciler σ) (o : Owner) (p : Pass σ) :
    (r.finalized o p).object.status = p.object.status := by
  obtain ⟨finalizers, hfinalized⟩ := finalized_finalizers r o p
  rw [hfinalized]
  rfl

@[simp] theorem key_finalized (r : Reconciler σ) (o : Owner) (p : Pass σ) :
    (r.finalized o p).object.key = p.object.key := by
  obtain ⟨finalizers, hfinalized⟩ := finalized_finalizers r o p
  rw [hfinalized]
  rfl

theorem holds_opening (h : Fetched o w) : (r.opening o w).Holds o := by
  obtain ⟨annotations, hadmitted⟩ := admitted_annotations r o
  have hobject : (r.opening o w).object = o.mapMeta fun m => { m with annotations } := hadmitted
  exact ⟨⟨h.faults, h.stored, by rw [hobject]; rfl, by rw [hobject]; rfl⟩, by rw [hobject]; rfl⟩

theorem ready_finalized (h : Fetched o w) {p : Pass σ}
    (hworked : r.convergence.Worked (r.opening o w) p) : Lifecycle.Ready o (r.finalized o p) := by
  obtain ⟨annotations, hadmitted⟩ := admitted_annotations r o
  obtain ⟨finalizers, hobject⟩ := finalized_finalizers r o p
  have hmetadata :
      (r.finalized o p).object.metadata = { o.metadata with annotations, finalizers } := by
    have hopening : p.object.metadata = (r.admitted o).metadata := hworked.metadata
    rw [hobject]
    dsimp only [Owner.mapMeta]
    rw [hopening, hadmitted]
    rfl
  refine ⟨⟨?_, ?_, ?_, ?_⟩, ?_, ?_⟩
  · rw [finalized_world, hworked.faults]
    exact h.faults
  · rw [finalized_world, hworked.store]
    exact h.stored
  · rw [Owner.key, hmetadata, Owner.key]
  · rw [hmetadata]
  · rw [hmetadata]
  · rw [finalized_deleted, hworked.deleted]
    rfl

/-- A pass on a fetched copy that did not fail is complete: it went through the work on the
repository and the closing. -/
structure Completed (r : Reconciler σ) (o : Owner) (w : World σ) (p q : Pass σ) : Prop where
  allowed : o.isDeleting = true → Lifecycle.isAllowed (r.rules o) o = true
  work : r.convergence.converge.runFrom (r.opening o w) = (.ok (), p)
  worked : r.convergence.Worked (r.opening o w) p
  ready : Lifecycle.Ready o (r.finalized o p)
  closed : Lifecycle.Closed o (r.finalized o p) q

/-- Where the work on the repository does not fail, the pass is complete. -/
theorem completed_of_work (h : Fetched o w) {p : Pass σ}
    (hallowed : o.isDeleting = true → Lifecycle.isAllowed (r.rules o) o = true)
    (hwork : r.convergence.converge.runFrom (r.opening o w) = (.ok (), p)) :
    ∃ q, r.reconcile o w = (.ok {}, q) ∧ Completed r o w p q := by
  have hworked := (Convergence.ends_converge (holds_opening (r := r) h)).of_ok hwork
  have hready := ready_finalized h hworked
  obtain ⟨q, hclose, hclosed⟩ :=
    Lifecycle.closing_of_ready hready (show (r.rules o).initial = o from rfl)
  refine ⟨q, ?_, hallowed, hwork, hworked, hready, hclosed⟩
  rw [reconcile_of_admitted r o w hallowed, hwork]
  exact hclose

/-- A pass on a fetched copy is complete and asks for no other one, or it failed and left at most
the phase of a living object changed in the store. -/
theorem reconcile_of_fetched (h : Fetched o w) :
    (∃ p q, r.reconcile o w = (.ok {}, q) ∧ Completed r o w p q) ∨
      ∃ failure q, r.reconcile o w = (.error failure, q) ∧
        (q.world.store = w.store ∨
          o.isDeleting = false ∧ q.world.store = w.store.markFailed o) := by
  by_cases hallowed : o.isDeleting = true → Lifecycle.isAllowed (r.rules o) o = true
  · rcases hrun : r.convergence.converge.runFrom (r.opening o w) with ⟨failure | _, p⟩
    · have hwork := Convergence.ends_converge (c := r.convergence) (holds_opening (r := r) h)
      rw [reconcile_of_admitted r o w hallowed, hrun]
      exact .inr ⟨_, p, rfl, hwork.of_error hrun⟩
    · obtain ⟨q, hcompleted⟩ := completed_of_work h hallowed hrun
      exact .inl ⟨p, q, hcompleted⟩
  · obtain ⟨hdeleting, hrefused⟩ := Classical.not_imp.1 hallowed
    rw [reconcile_of_refused r o w hdeleting (Bool.eq_false_iff.2 hrefused)]
    exact .inr ⟨_, _, rfl, .inl rfl⟩

end Reconciler

end ForgeSync
