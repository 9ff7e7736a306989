import ForgeSync.Proofs.Forge.Footprint
import ForgeSync.Registry

/-!
# Forges that others act on

A forge does not wait for a pass: between two calls of the pass others may change what stands behind
it. Such a forge is modelled by a function on states that is applied before each call; it sees the
state that it is applied to, and so it can do different things at different times.

Main statements: `Respects.preceded` and `Registry.preceded_id`.
-/

namespace ForgeSync

variable {σ α : Type}

/-- An action before which something happens to the state. -/
def Act.preceded (outside : σ → σ) (act : Act σ α) : Act σ α :=
  Act.ofFunction fun s => act.runFrom (outside s)

/-- A forge before each call of which something happens to the state. -/
def Forge.preceded (outside : σ → σ) (forge : Forge σ) : Forge σ where
  providerType := forge.providerType
  baseUrl := forge.baseUrl
  pageBudget := forge.pageBudget
  getProject path := (forge.getProject path).preceded outside
  createProject space name description :=
    (forge.createProject space name description).preceded outside
  editDescription path description := (forge.editDescription path description).preceded outside
  deleteProject path := (forge.deleteProject path).preceded outside
  archiveProject path := (forge.archiveProject path).preceded outside
  listDeployKeys path := (forge.listDeployKeys path).preceded outside
  addDeployKey path title key := (forge.addDeployKey path title key).preceded outside
  deleteDeployKey path id := (forge.deleteDeployKey path id).preceded outside
  listTreePage path page := (forge.listTreePage path page).preceded outside
  createCommit path branch message actions :=
    (forge.createCommit path branch message actions).preceded outside
  updateVariable path v := (forge.updateVariable path v).preceded outside
  createVariable path v := (forge.createVariable path v).preceded outside
  deleteVariable path key := (forge.deleteVariable path key).preceded outside
  listAccessTokens path := (forge.listAccessTokens path).preceded outside
  createAccessToken path request := (forge.createAccessToken path request).preceded outside

/-- A registry all of whose forges are acted on. -/
def Registry.preceded (outside : σ → σ) (registry : Registry σ) : Registry σ where
  factories := registry.factories.map fun factory =>
    { factory with
      connect := fun connection => (factory.connect connection).map (Forge.preceded outside) }

theorem Act.ends_preceded {outside : σ → σ} {act : Act σ α} {s : σ} {onOk : α → σ → Prop}
    {onError : Failure → σ → Prop} :
    (act.preceded outside).Ends s onOk onError ↔ act.Ends (outside s) onOk onError :=
  Iff.rfl

/-- Where nothing happens, the forges are what they were. -/
theorem Registry.preceded_id (registry : Registry σ) : registry.preceded id = registry := by
  have hconnect : ∀ result : Except Failure (Forge σ),
      result.map (Forge.preceded id) = result := by
    intro result
    cases result <;> rfl
  simp [preceded, hconnect]

namespace Forge

variable {forge : Forge σ} {outside : σ → σ} {R : σ → σ → Prop}

theorem runFrom_performCall_preceded (call : Call) (s : σ) :
    (Operation.performCall (forge.preceded outside) call).runFrom s =
      (Operation.performCall forge call).runFrom (outside s) := by
  cases call <;> rw [Operation.performCall, Operation.performCall, Act.runFrom_map,
    Act.runFrom_map] <;> rfl

/-- What the calls respect and others respect is respected by the calls of a forge that they act
on. -/
theorem Respects.preceded {calls : Call → Prop} (h : forge.Respects calls R) (hR : Act.Chains R)
    (houtside : ∀ s, R s (outside s)) : (forge.preceded outside).Respects calls R := by
  intro call hcall s
  rw [runFrom_performCall_preceded]
  exact hR.trans (houtside s) (h call hcall (outside s))

end Forge

end ForgeSync
