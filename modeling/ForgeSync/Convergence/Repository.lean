import ForgeSync.Convergence.AccessToken
import ForgeSync.Convergence.Files
import ForgeSync.Convergence.KeyDelta
import ForgeSync.Convergence.Variables
import ForgeSync.Url.Reader

/-!
# Operations on a declared repository

What a pass asks of a forge for one descriptor: read, create, update, remove, commit the template
files, grant an access token, settle the CI variables. Each compares the descriptor with what the
forge holds and applies what is missing, so that an operation that was cut short can be done
again.

A forge cannot change a deploy key. A key that differs is deleted and added again under its
title; of several keys with one title the first is the one that is compared.
-/

namespace ForgeSync

/-- The deploy keys of a listing by title. -/
structure ListedKeys where
  /-- The first key of each title: its identifier and its content. -/
  byTitle : Table (UInt64 × DeployKey) := ∅
  /-- The further keys of a title. -/
  duplicates : List RemoteDeployKey := []

namespace ListedKeys

def add (listed : ListedKeys) (k : RemoteDeployKey) : ListedKeys :=
  if k.title ∈ listed.byTitle then { listed with duplicates := listed.duplicates ++ [k] }
  else
    { listed with
      byTitle := listed.byTitle.insert k.title (k.id, DeployKey.ofAuthorizedKey k.key k.canPush) }

def ofListing (listing : List RemoteDeployKey) : ListedKeys :=
  listing.foldl add {}

def values (listed : ListedKeys) : Table DeployKey :=
  listed.byTitle.map fun _ entry => entry.2

end ListedKeys

/-- What became of one deploy key. -/
inductive KeyOutcome where
  | applied
  | nothing
  | failed (error : String)
  deriving DecidableEq, Repr, Inhabited

namespace KeyOutcome

def error? : KeyOutcome → Option String
  | failed error => some error
  | _ => none

end KeyOutcome

namespace Forge

variable {σ : Type} (forge : Forge σ)

/-- The address that a repository is cloned from. -/
def cloneUrl (repo : Descriptor) : String :=
  let host := match Url.read forge.baseUrl with
    | .ok url => url.host?
    | .error _ => none
  match host with
  | some host => "ssh://git@" ++ host ++ "/" ++ repo.fullPath ++ ".git"
  | none => forge.baseUrl ++ "/" ++ repo.fullPath ++ ".git"

def readRepository (repo : Descriptor) : Act σ (Option RemoteRepository) :=
  forge.getProject repo.fullPath

/-! ## Deploy keys -/

/-- Adds a key under its title. -/
def addKey (path title : String) (key : DeployKey) : Act σ KeyOutcome := do
  match ← (forge.addDeployKey path title key).attempt with
  | .ok () => return .applied
  | .error failure => return .failed ("add " ++ title ++ ": " ++ failure.message)

/-- Adds a key, after deleting the one that has its title. -/
def replaceKey (path : String) (stale : Option UInt64) (title : String) (key : DeployKey) :
    Act σ KeyOutcome := do
  match stale with
  | none => forge.addKey path title key
  | some id =>
    match ← (forge.deleteDeployKey path id).attempt with
    | .ok () => forge.addKey path title key
    | .error failure => return .failed ("replace " ++ title ++ ": " ++ failure.message)

/-- Deletes a key that is not wanted; it may be absent already. -/
def dropKey (path title : String) (id : UInt64) : Act σ KeyOutcome := do
  match ← (forge.deleteDeployKey path id).attempt with
  | .ok () => return .applied
  | .error failure =>
    if failure.isNotFound then return .nothing
    else return .failed ("remove " ++ title ++ ": " ++ failure.message)

/-- The keys to delete: those that no title wants, then the duplicates. -/
def surplusKeys (listed : ListedKeys) (delta : KeyDelta) : List (String × UInt64) :=
  (delta.remove.keys.filterMap fun title =>
    listed.byTitle[title]?.map fun entry => (title, entry.1)) ++
    listed.duplicates.map fun k => (k.title, k.id)

/-- Makes the deploy keys of a repository those of its descriptor; tells whether it changed
any. -/
def syncDeployKeys (repo : Descriptor) : Act σ Bool := do
  let path := repo.fullPath
  let listed := ListedKeys.ofListing (← forge.listDeployKeys path)
  let delta := KeyDelta.between repo.deployKeys listed.values
  let attempted := delta.add.size + delta.remove.size + listed.duplicates.length
  let added ← delta.add.toList.mapM fun (title, key) =>
    forge.replaceKey path (listed.byTitle[title]?.map (·.1)) title key
  let dropped ← (surplusKeys listed delta).mapM fun (title, id) => forge.dropKey path title id
  let outcomes := added ++ dropped
  Act.ofExcept (Failure.ofBatch "deploy keys" attempted (outcomes.filterMap KeyOutcome.error?))
  return outcomes.contains .applied

/-! ## Descriptions, creation, update and removal -/

/-- Makes the description of a repository its display name; tells whether it differed. -/
def syncDescription (repo : Descriptor) : Act σ Bool := do
  match ← forge.getProject repo.fullPath with
  | none => throw (.notFound ("repository " ++ repo.fullPath))
  | some remote =>
    if remote.description = repo.effectiveDisplayName then return false
    else
      forge.editDescription repo.fullPath repo.effectiveDisplayName
      return true

/-- Creates the repository with all its deploy keys. -/
def createRepository (repo : Descriptor) : Act σ Unit := do
  let _ ← forge.createProject repo.path repo.repoName repo.effectiveDisplayName
  let outcomes ← repo.deployKeys.toList.mapM fun (title, key) =>
    forge.addKey repo.fullPath title key
  Act.ofExcept (Failure.ofBatch "deploy keys" repo.deployKeys.size
    (outcomes.filterMap KeyOutcome.error?))

/-- Brings deploy keys and description in line; tells whether it changed anything. -/
def updateRepository (repo : Descriptor) : Act σ Bool := do
  let keysChanged ← forge.syncDeployKeys repo
  let nameChanged ← forge.syncDescription repo
  return keysChanged || nameChanged

/-- Deletes the repository; it may be absent already. -/
def deleteRepository (repo : Descriptor) : Act σ Unit := do
  match ← (forge.deleteProject repo.fullPath).attempt with
  | .ok () => return ()
  | .error failure => if failure.isNotFound then return () else throw failure

/-- Archives the repository, unless it is absent or archived already. -/
def archiveRepository (repo : Descriptor) : Act σ Unit := do
  match ← forge.getProject repo.fullPath with
  | none => return ()
  | some remote => if remote.archived then return () else forge.archiveProject repo.fullPath

/-- Does what the deletion policy says. -/
def removeRepository (repo : Descriptor) : Act σ Unit :=
  match repo.effectiveDeletionPolicy with
  | .delete => forge.deleteRepository repo
  | .archive => forge.archiveRepository repo
  | .retain => return ()
  | .unknown => return ()

/-- Commits the template files to the default branch. -/
def commitTemplate (repo : Descriptor) : Act σ Unit := do
  if repo.templateFiles.isEmpty then return ()
  let remote ← forge.getProject repo.fullPath
  let _ ← forge.syncFiles repo (remote.bind (·.defaultBranch))
  return ()

end Forge

end ForgeSync
