import ForgeSync.Pipeline.Reconciler
import ForgeSync.Proofs.Action.Calculus

/-!
# The stages of a pass

A pass is an opening that decides on the deletion, the work on the repository, and a closing that
sets the finalizers and stores what has changed. The work begins with the way to the forge: either
the forge is reached, with all that had to be in place for it, or the pass goes no further and has
asked no forge for anything.

Main statements: `reconcile_of_refused` and `reconcile_of_admitted` are the opening, and
`converge_of_access` and `strayed_of_no_access` the way to the forge.
-/

namespace ForgeSync

/-! ## Opening and closing -/

namespace Lifecycle

variable {σ : Type} (rules : Rules) (p : Pass σ)

theorem runFrom_checkDeleted :
    (checkDeleted.run rules).runFrom p =
      (.ok .proceed, { p with deleted := p.object.isDeleting }) :=
  rfl

theorem runFrom_addProtection (enabled : Bool) :
    ((addProtection enabled).run rules).runFrom p =
      (.ok .proceed,
        { p with object := if enabled && !p.deleted then protect p.object else p.object }) := by
  simp only [addProtection, Act.runFrom_bind, Act.runFrom_get]
  split <;> rfl

theorem runFrom_handleDeletion :
    (handleDeletion.run rules).runFrom p =
      if p.deleted && !isAllowed rules p.object then (.error .finalizerNotRemoved, p)
      else (.ok .proceed, p) := by
  simp only [handleDeletion, Act.runFrom_bind, Act.runFrom_get]
  split <;> rfl

theorem runFrom_handleFinalizer :
    (handleFinalizer.run rules).runFrom p =
      (.ok .proceed, { p with object := p.object.mapMeta (finalize rules p.deleted) }) :=
  rfl

end Lifecycle

namespace Reconciler

variable {σ : Type} (r : Reconciler σ) (o : Owner) (w : World σ)

/-- The object as the work on its repository meets it. -/
def admitted : Owner :=
  if r.settings.deletionProtection && !o.isDeleting then Lifecycle.protect o else o

/-- The pass as the work on the repository meets it. -/
def opening : Pass σ where
  object := r.admitted o
  deleted := o.isDeleting
  world := w

/-- The pass with the finalizers set. -/
def finalized (p : Pass σ) : Pass σ :=
  { p with object := p.object.mapMeta (Lifecycle.finalize (r.rules o) p.deleted) }

@[simp] theorem finalized_world (p : Pass σ) : (r.finalized o p).world = p.world := by
  dsimp only [finalized]

@[simp] theorem finalized_deleted (p : Pass σ) : (r.finalized o p).deleted = p.deleted := by
  dsimp only [finalized]

theorem admitted_of_isDeleting (h : o.isDeleting = true) : r.admitted o = o := by
  simp [admitted, h]

theorem reconcile_of_refused (hdeleting : o.isDeleting = true)
    (hrefused : Lifecycle.isAllowed (r.rules o) o = false) :
    r.reconcile o w =
      (.error ⟨"HandleDeletion", .finalizerNotRemoved⟩,
        { object := o, deleted := true, world := w }) := by
  simp only [reconcile, steps, runSteps, Lifecycle.runFrom_checkDeleted,
    Lifecycle.runFrom_addProtection, Lifecycle.runFrom_handleDeletion]
  simp [hdeleting, hrefused, Lifecycle.handleDeletion]

/-- All steps but the last one, where a deletion, if it was requested, is allowed: they come to the
work on the repository and the finalizers. -/
theorem runSteps_of_admitted (rest : List (Step σ))
    (hadmitted : o.isDeleting = true → Lifecycle.isAllowed (r.rules o) o = true) :
    runSteps (r.rules o) (r.steps.dropLast ++ rest) { object := o, world := w } =
      match r.convergence.converge.runFrom (r.opening o w) with
      | (.error cause, after) => (.error ⟨"RepoConvergence", cause⟩, after)
      | (.ok (), after) => runSteps (r.rules o) rest (r.finalized o after) := by
  have hgate : (Lifecycle.handleDeletion.run (r.rules o)).runFrom (r.opening o w) =
      (.ok .proceed, r.opening o w) := by
    rw [Lifecycle.runFrom_handleDeletion]
    cases hdeleting : o.isDeleting with
    | false => simp [opening, hdeleting]
    | true => simp [opening, hdeleting, admitted, hadmitted hdeleting]
  change runSteps (r.rules o) (Lifecycle.checkDeleted ::
    Lifecycle.addProtection r.settings.deletionProtection :: Lifecycle.handleDeletion ::
    r.convergence.step :: Lifecycle.handleFinalizer :: rest) _ = _
  rw [runSteps_of_proceed (Lifecycle.runFrom_checkDeleted (r.rules o) _),
    runSteps_of_proceed (Lifecycle.runFrom_addProtection (r.rules o) _ _)]
  change runSteps (r.rules o) _ (r.opening o w) = _
  rw [runSteps_of_proceed hgate, runSteps]
  simp only [Convergence.step, Act.runFrom_bind]
  rcases r.convergence.converge.runFrom (r.opening o w) with ⟨_ | _, after⟩
  · rfl
  · exact runSteps_of_proceed (Lifecycle.runFrom_handleFinalizer (r.rules o) after) _

theorem reconcile_of_admitted
    (hadmitted : o.isDeleting = true → Lifecycle.isAllowed (r.rules o) o = true) :
    r.reconcile o w =
      match r.convergence.converge.runFrom (r.opening o w) with
      | (.error cause, after) => (.error ⟨"RepoConvergence", cause⟩, after)
      | (.ok (), after) =>
        runSteps (r.rules o) [Lifecycle.updateObject] (r.finalized o after) :=
  runSteps_of_admitted r o w [Lifecycle.updateObject] hadmitted

end Reconciler

/-! ## The way to the forge -/

namespace Convergence

variable {σ : Type}

/-- The template of an object as the pass completes it. -/
def completed (c : Convergence σ) (o : Owner) : Option Descriptor :=
  o.spec.gitTemplate.map (completedTemplate o c.defaultDeletionPolicy c.defaultCreationPolicy)

/-- All that lets the work on the repository of an object reach a forge. -/
structure Access (c : Convergence σ) (o : Owner) (w : World σ) (repo : Descriptor)
    (connection : Connection) (forge : Forge σ) : Prop where
  template : c.completed o = some repo
  tenant : Text.isBlankText o.tenantRef = false
  secrets : w.faults.getSecret = none
  secret : ∃ data, w.secrets.get? o.metadata.space o.tenantRef = some data ∧
    Connection.ofData o.tenantRef data = .ok connection
  provider : ∃ factory,
    c.registry.resolve repo.effectiveRepoType connection.endpoint = .ok factory ∧
      factory.connect connection = .ok forge

/-- The work that is left once the forge is reached. -/
def convergeOn (c : Convergence σ) (connection : Connection) (forge : Forge σ)
    (repo : Descriptor) : Act (Pass σ) Unit := do
  let remote ← (forge.readRepository repo).within Pass.onBackend
  if (← get).deleted then
    if remote.isSome then (forge.removeRepository repo).within Pass.onBackend
  else c.convergeRepository connection forge repo remote.isSome

variable {c : Convergence σ} {p : Pass σ} {repo : Descriptor} {connection : Connection}
  {forge : Forge σ}

/-- The pass with the template of its object filled in. -/
def templated (p : Pass σ) (repo : Descriptor) : Pass σ :=
  { p with object := p.object.withTemplate repo }

theorem converge_of_no_template (h : p.object.spec.gitTemplate = none) :
    c.converge.runFrom p = (.ok (), p) := by
  simp [converge, Act.runFrom_bind, h]

theorem converge_of_blank_tenant (h : p.object.spec.gitTemplate ≠ none)
    (hblank : Text.isBlankText p.object.tenantRef = true) :
    c.converge.runFrom p =
      (.error (.configuration (p.object.kind.name ++ " " ++ p.object.key ++
        " has an empty tenant reference")), p) := by
  obtain ⟨declared, hdeclared⟩ := Option.ne_none_iff_exists'.1 h
  simp [converge, Act.runFrom_bind, hdeclared, hblank]

/-- Behind the first checks the template is filled in, and the secret is asked for. -/
theorem converge_of_template (h : c.completed p.object = some repo)
    (htenant : Text.isBlankText p.object.tenantRef = false) :
    c.converge.runFrom p =
      match (connectionOf p.object).runFrom (templated p repo) with
      | (.error failure, after) => (.error failure, after)
      | (.ok (some connection), after) => (c.convergeThrough connection repo).runFrom after
      | (.ok none, after) =>
        if after.deleted then (.ok (), after)
        else (.error (.configuration ("connection secret " ++ p.object.metadata.space ++ "/" ++
          p.object.tenantRef ++ " not found")), after) := by
  obtain ⟨declared, hdeclared, rfl⟩ := Option.map_eq_some_iff.1 h
  generalize hrepo : completedTemplate p.object c.defaultDeletionPolicy c.defaultCreationPolicy
    declared = repo
  have hcomplete : c.complete.runFrom p = (.ok (some repo), templated p repo) := by
    simp only [complete, Act.runFrom_bind, Act.runFrom_get, hdeclared, hrepo]
    rfl
  simp only [converge, Act.runFrom_bind, Act.runFrom_get, hdeclared, htenant, hcomplete,
    Option.isNone_some, Bool.false_eq_true, if_false]
  rcases (connectionOf p.object).runFrom (templated p repo) with ⟨_ | _ | connection, after⟩
  · rfl
  · simp only [Act.runFrom_bind, Act.runFrom_get]
    split <;> rfl
  · rfl

theorem runFrom_connectionOf (o : Owner) (p : Pass σ) :
    (connectionOf o).runFrom p =
      (match p.world.faults.getSecret with
        | some failure => .error failure
        | none =>
          match p.world.secrets.get? o.metadata.space o.tenantRef with
          | none => .ok none
          | some data => (Connection.ofData o.tenantRef data).map some, p) := by
  have hget :
      ((World.getSecret o.metadata.space o.tenantRef).within (Pass.onWorld (σ := σ))).runFrom p =
      (match p.world.faults.getSecret with
        | some failure => .error failure
        | none => .ok (p.world.secrets.get? o.metadata.space o.tenantRef), p) := by
    rw [Act.runFrom_within, World.getSecret, World.guarded, Act.runFrom_ofFunction]
    cases hfault : p.world.faults.getSecret <;> simp [Pass.onWorld, hfault]
  rw [connectionOf, Act.runFrom_bind, hget]
  cases p.world.faults.getSecret with
  | some failure => rfl
  | none =>
      dsimp only
      cases p.world.secrets.get? o.metadata.space o.tenantRef with
      | none => rfl
      | some data => simp [Act.runFrom_map]

theorem runFrom_convergeThrough (c : Convergence σ) (connection : Connection) (repo : Descriptor)
    (p : Pass σ) :
    (c.convergeThrough connection repo).runFrom p =
      match c.registry.resolve repo.effectiveRepoType connection.endpoint with
      | .error failure => (.error failure, p)
      | .ok factory =>
        match factory.connect connection with
        | .error failure => (.error failure, p)
        | .ok forge => (c.convergeOn connection forge repo).runFrom p := by
  unfold convergeThrough
  rw [Act.runFrom_bind, Act.runFrom_ofExcept]
  rcases c.registry.resolve repo.effectiveRepoType connection.endpoint with _ | factory
  · rfl
  · dsimp only
    rw [Act.runFrom_bind, Act.runFrom_ofExcept]
    rcases factory.connect connection with _ | forge <;> rfl

theorem converge_of_access (h : Access c p.object p.world repo connection forge) :
    c.converge.runFrom p = (c.convergeOn connection forge repo).runFrom (templated p repo) := by
  obtain ⟨data, hdata, hconnection⟩ := h.secret
  obtain ⟨factory, hresolve, hconnect⟩ := h.provider
  have hreach : (connectionOf p.object).runFrom (templated p repo) =
      (.ok (some connection), templated p repo) := by
    simp [runFrom_connectionOf, templated, h.secrets, hdata, hconnection, Except.map]
  rw [converge_of_template h.template h.tenant, hreach]
  simp only [runFrom_convergeThrough, hresolve, hconnect]

/-- What work that reaches no forge comes to: the world stays as it is, and only an object without
a template or one that is being deleted gets past it. -/
structure Strayed (c : Convergence σ) (p : Pass σ) (outcome : Except Failure Unit)
    (after : Pass σ) : Prop where
  world : after.world = p.world
  deleted : after.deleted = p.deleted
  object : after = p ∨ ∃ repo, c.completed p.object = some repo ∧ after = templated p repo
  ok : outcome = .ok () → p.deleted = true ∨ p.object.spec.gitTemplate = none ∧ after = p

theorem Strayed.of_templated {outcome : Except Failure Unit} (h : c.completed p.object = some repo)
    (hok : outcome = .ok () → p.deleted = true) : Strayed c p outcome (templated p repo) :=
  ⟨rfl, rfl, .inr ⟨repo, h, rfl⟩, fun houtcome => .inl (hok houtcome)⟩

theorem strayed_of_no_access (h : ∀ repo connection forge,
      ¬ Access c p.object p.world repo connection forge) :
    Strayed c p (c.converge.runFrom p).1 (c.converge.runFrom p).2 := by
  cases htemplate : p.object.spec.gitTemplate with
  | none =>
      rw [converge_of_no_template htemplate]
      exact ⟨rfl, rfl, .inl rfl, fun _ => .inr ⟨htemplate, rfl⟩⟩
  | some declared =>
      cases htenant : Text.isBlankText p.object.tenantRef with
      | true =>
          rw [converge_of_blank_tenant (by simp [htemplate]) htenant]
          exact ⟨rfl, rfl, .inl rfl, nofun⟩
      | false =>
          obtain ⟨repo, hrepo⟩ : ∃ repo, c.completed p.object = some repo := by
            simp [completed, htemplate]
          rw [converge_of_template hrepo htenant, runFrom_connectionOf]
          -- the template is filled in; each missing link ends the work there
          cases hfault : (templated p repo).world.faults.getSecret with
          | some failure => exact .of_templated hrepo nofun
          | none =>
              dsimp only
              cases hsecret : (templated p repo).world.secrets.get? p.object.metadata.space
                  p.object.tenantRef with
              | none =>
                  dsimp only
                  cases hdeleted : (templated p repo).deleted with
                  | true => exact .of_templated hrepo fun _ => hdeleted
                  | false => exact .of_templated hrepo nofun
              | some data =>
                  dsimp only
                  cases hconnection : Connection.ofData p.object.tenantRef data with
                  | error failure => exact .of_templated hrepo nofun
                  | ok connection =>
                      simp only [Except.map, runFrom_convergeThrough]
                      cases hresolve : c.registry.resolve repo.effectiveRepoType
                          connection.endpoint with
                      | error failure => exact .of_templated hrepo nofun
                      | ok factory =>
                          dsimp only
                          cases hconnect : factory.connect connection with
                          | error failure => exact .of_templated hrepo nofun
                          | ok forge =>
                              exact (h repo connection forge ⟨hrepo, htenant, hfault,
                                ⟨data, hsecret, hconnection⟩, factory, hresolve, hconnect⟩).elim

/-! ## The work on a repository that goes -/

/-- Removes a repository, if it is there, as its policy says. -/
def retire (forge : Forge σ) (repo : Descriptor) : Act σ Unit := do
  let remote ← forge.readRepository repo
  if remote.isSome then forge.removeRepository repo

theorem convergeOn_of_deleted (h : p.deleted = true) :
    (c.convergeOn connection forge repo).runFrom p =
      ((retire forge repo).within Pass.onBackend).runFrom p := by
  simp only [convergeOn, retire, Act.runFrom_bind, Act.runFrom_within]
  rcases (forge.readRepository repo).runFrom (Pass.onBackend.get p) with ⟨_ | remote, after⟩
  · rfl
  · simp only [Act.runFrom_get, show (Pass.onBackend.set after p).deleted = true from h, if_true]
    cases remote <;> rfl

theorem convergeOn_of_living (h : p.deleted = false) :
    (c.convergeOn connection forge repo).runFrom p =
      match ((forge.readRepository repo).within Pass.onBackend).runFrom p with
      | (.error failure, after) => (.error failure, after)
      | (.ok remote, after) =>
        (c.convergeRepository connection forge repo remote.isSome).runFrom after := by
  simp only [convergeOn, Act.runFrom_bind, Act.runFrom_within]
  rcases (forge.readRepository repo).runFrom (Pass.onBackend.get p) with ⟨_ | remote, after⟩
  · rfl
  · simp only [Act.runFrom_get, show (Pass.onBackend.set after p).deleted = false from h,
      Bool.false_eq_true, if_false]

/-! ## The work on a living repository -/

/-- The end of the work: CI variables, access token and status. -/
def finish (c : Convergence σ) (connection : Connection) (forge : Forge σ) (repo : Descriptor) :
    Act (Pass σ) Unit := do
  settleVariables forge repo
  c.grantToken forge repo
  Pass.modifyObject (·.mapStatus fun s =>
    { s with
      providerType := some forge.providerType
      url := some (forge.cloneUrl repo)
      hostKeys := connection.hostKeys
      phase := .created })

/-- The work on a repository that exists by now: the files, then what differs, then the end. -/
def fill (c : Convergence σ) (connection : Connection) (forge : Forge σ) (repo : Descriptor)
    (existed : Bool) : Act (Pass σ) Unit := do
  recording ((forge.commitTemplate repo).within Pass.onBackend)
  if existed then
    let _ ← (forge.updateRepository repo).within Pass.onBackend
  c.finish connection forge repo

theorem convergeRepository_eq (c : Convergence σ) (connection : Connection) (forge : Forge σ)
    (repo : Descriptor) (existed : Bool) :
    c.convergeRepository connection forge repo existed =
      if existed then c.fill connection forge repo existed
      else createMissing forge repo >>= fun _ => c.fill connection forge repo existed := by
  cases existed <;> rfl

end Convergence

end ForgeSync
