import ForgeSync.Forge.Basic
import ForgeSync.Store.Objects
import ForgeSync.Store.Secrets

/-!
# What a pass works in

The object store, the secrets, the vault, and the state behind the forges. Each of the first
three can be made to fail, so that one can ask what a pass does then; a call that is made to fail
does nothing.
-/

namespace ForgeSync

/-- The failures that await calls to the store, the secrets and the vault. -/
structure Faults where
  update : Option Failure := none
  updateStatus : Option Failure := none
  getSecret : Option Failure := none
  storeToken : Option Failure := none
  deriving DecidableEq, Inhabited

structure World (σ : Type) where
  store : ObjectStore := {}
  secrets : SecretSource := {}
  vault : TokenVault := {}
  faults : Faults := {}
  /-- The state behind the forges. -/
  backend : σ

namespace World

variable {σ α : Type}

/-- The backend as a part of the world. -/
def onBackend : Focus (World σ) σ :=
  ⟨(·.backend), fun backend w => { w with backend }⟩

/-- An action that a failure may await. -/
def guarded (fault : Faults → Option Failure) (body : World σ → Except Failure α × World σ) :
    Act (World σ) α :=
  Act.ofFunction fun w =>
    match fault w.faults with
    | some failure => (.error failure, w)
    | none => body w

/-- Stores metadata and spec of an object. -/
def updateObject (o : Owner) : Act (World σ) Owner :=
  guarded (·.update) fun w =>
    let (outcome, store) := w.store.update o
    (outcome, { w with store })

/-- Stores the status of an object. -/
def updateStatus (o : Owner) : Act (World σ) Owner :=
  guarded (·.updateStatus) fun w =>
    let (outcome, store) := w.store.updateStatus o
    (outcome, { w with store })

/-- The data of a secret, if there is such a secret. -/
def getSecret (space name : String) : Act (World σ) (Option (Table String)) :=
  guarded (·.getSecret) fun w => (.ok (w.secrets.get? space name), w)

/-- Hands the secret of a granted token to the vault. -/
def storeToken (path : String) (grant : AccessTokenGrant) (token : String) :
    Act (World σ) Unit :=
  guarded (·.storeToken) fun w => (.ok (), { w with vault := w.vault.store path grant token })

end World

end ForgeSync
