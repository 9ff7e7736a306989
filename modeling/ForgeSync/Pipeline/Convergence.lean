import ForgeSync.Convergence.Repository
import ForgeSync.Pipeline.Step
import ForgeSync.Registry

/-!
# Work on the repository

The step that makes the repository of an object what its template declares. What the template
leaves open is filled in first. A repository that does not exist is created, unless only existing
ones are to be managed; then come the template files, the deploy keys and the description, the CI
variables and the access token. When the object is being deleted, its repository is removed as its
policy says, and nothing else is done.

A failure to create the repository or to commit the files is recorded in the stored status at
once.
-/

namespace ForgeSync

open Calendar (Instant)

/-- The template of an object, with what it leaves open filled in. -/
def completedTemplate (o : Owner) (deletion : DeletionPolicy) (creation : CreationPolicy)
    (repo : Descriptor) : Descriptor :=
  { repo with
    displayName := some (repo.displayName.getD (o.spec.displayName.getD repo.repoName))
    deletionPolicy :=
      some (repo.deletionPolicy.getD (o.spec.deletionPolicy.getD deletion))
    creationPolicy :=
      some (repo.creationPolicy.getD (o.spec.creationPolicy.getD creation))
    repoType := some (repo.repoType.getD autoRepoType) }

/-- Names without repetition, in the order of their code points. -/
def sortedNames (names : List String) : List String :=
  ((∅ : PathSet).insertMany names).toList

/-- The names that a change from one trace of CI variables to the next is about. -/
def managedNames (previous : Option AppliedVariables) (next : AppliedVariables) : List String :=
  sortedNames ((previous.elim [] (·.names)) ++ next.names)

/-- What the step needs to know. -/
structure Convergence (σ : Type) where
  registry : Registry σ
  defaultDeletionPolicy : DeletionPolicy := .retain
  defaultCreationPolicy : CreationPolicy := .create
  /-- The time of the pass. -/
  now : Instant

namespace Convergence

variable {σ : Type}

/-- Fills in the template of the object, if it has one. -/
def complete (c : Convergence σ) : Act (Pass σ) (Option Descriptor) := do
  let o := (← get).object
  match o.spec.gitTemplate with
  | none => return none
  | some repo =>
    let repo := completedTemplate o c.defaultDeletionPolicy c.defaultCreationPolicy repo
    Pass.modifyObject (·.withTemplate repo)
    return some repo

/-- The connection that belongs to an object, if its secret exists. -/
def connectionOf (o : Owner) : Act (Pass σ) (Option Connection) := do
  match ← (World.getSecret o.metadata.space o.tenantRef).within Pass.onWorld with
  | none => return none
  | some data => some <$> Act.ofExcept (Connection.ofData o.tenantRef data)

/-- Records the phase `failed` at once, and fails. -/
def failWith {α : Type} (cause : Failure) : Act (Pass σ) α := do
  Pass.modifyObject (·.withPhase .failed)
  match ← ((World.updateStatus (← get).object).within Pass.onWorld).attempt with
  | .ok stored =>
    Pass.modifyObject (·.withVersion stored.metadata.resourceVersion)
    throw cause
  | .error persist => throw (.statusPersist cause persist)

/-- An action whose failure is recorded at once. -/
def recording {α : Type} (act : Act (Pass σ) α) : Act (Pass σ) α := do
  match ← act.attempt with
  | .ok a => return a
  | .error cause => failWith cause

/-- Settles the CI variables, unless the same ones were applied last. -/
def settleVariables (forge : Forge σ) (repo : Descriptor) : Act (Pass σ) Unit := do
  let previous := (← get).object.status.lastAppliedCiVariables
  let next := AppliedVariables.ofDesired repo.ciVariables
  if previous = some next then return ()
  let managed := managedNames previous next
  if !managed.isEmpty then
    let _ ← (forge.reconcileVariables repo.fullPath managed repo.ciVariables).within Pass.onBackend
  let applied := if next.names.isEmpty then none else some next
  Pass.modifyObject (·.mapStatus fun s => { s with lastAppliedCiVariables := applied })

/-- Grants the access token that the template wants, and keeps a new secret in the vault. -/
def grantToken (c : Convergence σ) (forge : Forge σ) (repo : Descriptor) :
    Act (Pass σ) Unit := do
  match repo.accessToken with
  | none => return ()
  | some name =>
    let hint := (← get).object.status.accessTokenUid
    let grant ←
      (forge.ensureAccessToken c.now repo.fullPath name hint).within Pass.onBackend
    match grant.token with
    | some token => (World.storeToken repo.fullPath grant token).within Pass.onWorld
    | none => pure ()
    Pass.modifyObject (·.mapStatus fun s => { s with accessTokenUid := some grant.uid })

/-- Creates a repository that does not exist, if that is allowed. -/
def createMissing (forge : Forge σ) (repo : Descriptor) : Act (Pass σ) Unit := do
  if repo.effectiveCreationPolicy = .adopt then
    throw (.notFound ("repository " ++ repo.fullPath ++
      " does not exist and creation policy is Adopt"))
  Pass.modifyObject (·.withPhase .creating)
  recording ((forge.createRepository repo).within Pass.onBackend)

/-- Makes the repository what its descriptor declares. -/
def convergeRepository (c : Convergence σ) (connection : Connection) (forge : Forge σ)
    (repo : Descriptor) (existed : Bool) : Act (Pass σ) Unit := do
  if !existed then createMissing forge repo
  recording ((forge.commitTemplate repo).within Pass.onBackend)
  if existed then
    let _ ← (forge.updateRepository repo).within Pass.onBackend
  settleVariables forge repo
  c.grantToken forge repo
  Pass.modifyObject (·.mapStatus fun s =>
    { s with
      providerType := some forge.providerType
      url := some (forge.cloneUrl repo)
      hostKeys := connection.hostKeys
      phase := .created })

/-- Converges a repository through its connection, or removes it. -/
def convergeThrough (c : Convergence σ) (connection : Connection) (repo : Descriptor) :
    Act (Pass σ) Unit := do
  let factory ← Act.ofExcept (c.registry.resolve repo.effectiveRepoType connection.endpoint)
  let forge ← Act.ofExcept (factory.connect connection)
  let remote ← (forge.readRepository repo).within Pass.onBackend
  if (← get).deleted then
    if remote.isSome then (forge.removeRepository repo).within Pass.onBackend
  else c.convergeRepository connection forge repo remote.isSome

/-- Does the work of the step. -/
def converge (c : Convergence σ) : Act (Pass σ) Unit := do
  let o := (← get).object
  if o.spec.gitTemplate.isNone then return ()
  if Text.isBlankText o.tenantRef then
    throw (.configuration (o.kind.name ++ " " ++ o.key ++ " has an empty tenant reference"))
  match ← c.complete with
  | none => return ()
  | some repo =>
    match ← connectionOf o with
    | some connection => c.convergeThrough connection repo
    | none =>
      if (← get).deleted then return ()
      else throw (.configuration ("connection secret " ++ o.metadata.space ++ "/" ++
        o.tenantRef ++ " not found"))

def step (c : Convergence σ) : Step σ where
  name := "RepoConvergence"
  run _ := do
    c.converge
    return .proceed

end Convergence

end ForgeSync
