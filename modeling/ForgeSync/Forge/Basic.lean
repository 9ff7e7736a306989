import ForgeSync.Failure
import ForgeSync.Forge.AccessToken
import ForgeSync.Forge.Project
import ForgeSync.Repository.DeployKey
import ForgeSync.Repository.Variable

/-!
# Forges

A forge hosts repositories and answers calls about them. What a call does is an action on the
state that stands behind the forge: it fails or gives an answer, and what it changed before it
failed stays changed. Repositories are named by their full path.

A listing of files comes in pages, each of which names the next. Nothing in the answers forces
such a chain to end, so a forge also says how many pages a listing of it may take.
-/

namespace ForgeSync

/-- An action on a state that may fail; the state that it reached is kept either way. -/
abbrev Act (σ α : Type) := ExceptT Failure (StateM σ) α

namespace Act

variable {σ ω α : Type}

/-- Runs an action from a state. -/
def runFrom (act : Act σ α) (s : σ) : Except Failure α × σ :=
  (ExceptT.run act).run s

/-- An action with a known outcome that changes nothing. -/
def ofExcept (outcome : Except Failure α) : Act σ α :=
  ExceptT.mk (pure outcome)

/-- The action that a function on states describes. -/
def ofFunction (f : σ → Except Failure α × σ) : Act σ α :=
  ExceptT.mk fun s => f s

/-- The outcome of an action as a value; this action itself does not fail. -/
def attempt (act : Act σ α) : Act σ (Except Failure α) :=
  ExceptT.mk do
    let outcome ← ExceptT.run act
    return .ok outcome

@[simp]
theorem runFrom_ofFunction (f : σ → Except Failure α × σ) (s : σ) :
    (ofFunction f).runFrom s = f s := rfl

@[simp]
theorem runFrom_ofExcept (outcome : Except Failure α) (s : σ) :
    (ofExcept outcome : Act σ α).runFrom s = (outcome, s) := rfl

@[simp]
theorem runFrom_pure (a : α) (s : σ) : (pure a : Act σ α).runFrom s = (.ok a, s) := rfl

@[simp]
theorem runFrom_throw (f : Failure) (s : σ) : (throw f : Act σ α).runFrom s = (.error f, s) := rfl

@[simp]
theorem runFrom_attempt (act : Act σ α) (s : σ) :
    act.attempt.runFrom s = (.ok (act.runFrom s).1, (act.runFrom s).2) := rfl

end Act

/-- A part of a larger state: how to read it there and how to put it back. -/
structure Focus (ω σ : Type) where
  get : ω → σ
  set : σ → ω → ω

/-- An action on a part, as an action on the whole. -/
def Act.within {σ ω α : Type} (focus : Focus ω σ) (act : Act σ α) : Act ω α :=
  Act.ofFunction fun w =>
    let (outcome, part) := act.runFrom (focus.get w)
    (outcome, focus.set part w)

/-- A forge over a state `σ`. -/
structure Forge (σ : Type) where
  /-- The name of the provider type. -/
  providerType : String
  /-- The address of the forge, without a slash at its end. -/
  baseUrl : String
  /-- How many pages a listing may take from a state. -/
  pageBudget : σ → Nat
  /-- The repository at a path, if there is one. -/
  getProject : String → Act σ (Option RemoteRepository)
  /-- Creates a repository in a namespace, under a name and with a description. -/
  createProject : String → String → String → Act σ RemoteRepository
  editDescription : String → String → Act σ Unit
  deleteProject : String → Act σ Unit
  archiveProject : String → Act σ Unit
  listDeployKeys : String → Act σ (List RemoteDeployKey)
  /-- Adds a deploy key under a title. -/
  addDeployKey : String → String → DeployKey → Act σ Unit
  deleteDeployKey : String → UInt64 → Act σ Unit
  /-- One page of the listing of files; the first one where no page is named. A repository
  without files has no listing. -/
  listTreePage : String → Option String → Act σ TreePage
  /-- Makes one commit on a branch, with a message. -/
  createCommit : String → String → String → List CommitAction → Act σ Unit
  /-- Changes a variable, which must exist. -/
  updateVariable : String → CiVariable → Act σ Unit
  createVariable : String → CiVariable → Act σ Unit
  /-- Deletes a variable, which must exist. -/
  deleteVariable : String → String → Act σ Unit
  listAccessTokens : String → Act σ (List AccessTokenRecord)
  /-- Creates an access token; the answer shows its secret. -/
  createAccessToken : String → NewAccessToken → Act σ AccessTokenRecord

/-- A forge over a part of a state, as a forge over the whole. -/
def Forge.within {σ ω : Type} (focus : Focus ω σ) (forge : Forge σ) : Forge ω where
  providerType := forge.providerType
  baseUrl := forge.baseUrl
  pageBudget w := forge.pageBudget (focus.get w)
  getProject path := (forge.getProject path).within focus
  createProject space name description := (forge.createProject space name description).within focus
  editDescription path description := (forge.editDescription path description).within focus
  deleteProject path := (forge.deleteProject path).within focus
  archiveProject path := (forge.archiveProject path).within focus
  listDeployKeys path := (forge.listDeployKeys path).within focus
  addDeployKey path title key := (forge.addDeployKey path title key).within focus
  deleteDeployKey path id := (forge.deleteDeployKey path id).within focus
  listTreePage path page := (forge.listTreePage path page).within focus
  createCommit path branch message actions :=
    (forge.createCommit path branch message actions).within focus
  updateVariable path v := (forge.updateVariable path v).within focus
  createVariable path v := (forge.createVariable path v).within focus
  deleteVariable path key := (forge.deleteVariable path key).within focus
  listAccessTokens path := (forge.listAccessTokens path).within focus
  createAccessToken path request := (forge.createAccessToken path request).within focus

end ForgeSync
