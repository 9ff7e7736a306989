import ForgeSync.Proofs.Memory.Minting
import ForgeSync.Proofs.Pass.Orphans

/-!
# Passes that are not alone

While a pass is on its way, users update objects, and tokens and repositories are lost on the forge.
A pass does not look at the store before it writes, so it makes no difference when exactly between
its fetch and its first write an update lands; and of the forge it sees only what its calls tell, so
that losses count from the next call on.

Main statements: `reconcileAmid_nothing` and `Registry.Serves.preceded`.
-/

namespace ForgeSync

open Calendar (Instant)
open Forge.Memory

/-! ## Disturbances -/

/-- What others do during a pass. -/
structure Disturbance where
  /-- Updates of users between the fetch and the first write of the pass. -/
  early : List Owner := []
  /-- What is lost on the forge before a call, by the state of the forge then. -/
  losses : State → List Loss := fun _ => []
  /-- Updates of users between the two writes that end the pass. -/
  late : List Owner := []

/-- The forge after what is lost before a call. -/
def Disturbance.strike (d : Disturbance) (s : State) : State :=
  (d.losses s).foldl State.lose s

theorem Disturbance.quiet_strike (d : Disturbance) (s : State) : Quiet s (d.strike s) := by
  unfold strike
  generalize d.losses s = losses
  induction losses generalizing s with
  | nil => exact quiet_chains.refl s
  | cons loss rest ih => exact quiet_chains.trans (quiet_lose s loss) (ih (s.lose loss))

/-- The world after updates of users; those that the store refuses change nothing. -/
def World.updated {σ : Type} (users : List Owner) (w : World σ) : World σ :=
  { w with store := users.foldl (fun store o => (store.update o).2) w.store }

namespace Lifecycle

variable {σ : Type}

/-- Stores what has changed, while users update objects between the two writes. -/
def storeAmid (late : List Owner) (rules : Rules) : Act (Pass σ) Unit := do
  storeObject rules
  modify fun p => { p with world := p.world.updated late }
  storeStatus rules

/-- Stores what has changed and ends the pass, like `updateObject`, while users update objects. -/
def updateObjectAmid (late : List Owner) : Step σ where
  name := "UpdateObject"
  run rules := do
    match ← (storeAmid late rules).attempt with
    | .ok () => return .stop false
    | .error failure => if failure.isConflict then return .stop true else throw failure

theorem updateObjectAmid_nil : updateObjectAmid (σ := σ) [] = updateObject :=
  rfl

end Lifecycle

namespace Reconciler

/-- One pass over a copy of an object in a world where others act. -/
def reconcileAmid (r : Reconciler State) (d : Disturbance) (o : Owner) (w : World State) :
    Except StepFailure Outcome × Pass State :=
  let r := { r with registry := r.registry.preceded d.strike }
  runSteps (r.rules o) (r.steps.dropLast ++ [Lifecycle.updateObjectAmid d.late])
    { object := o, world := w.updated d.early }

/-- Where nothing happens, it is a pass like any other. -/
theorem reconcileAmid_nothing (r : Reconciler State) (o : Owner) (w : World State) :
    r.reconcileAmid {} o w = r.reconcile o w := by
  have hregistry : r.registry.preceded (Disturbance.strike {}) = r.registry :=
    r.registry.preceded_id
  unfold reconcileAmid
  dsimp only
  rw [hregistry, Lifecycle.updateObjectAmid_nil]
  rfl

end Reconciler

/-! ## Runs -/

/-- What happens in the course of time. -/
inductive Incident where
  /-- A pass at a time over a fresh copy, under failures of the forge, while others act. -/
  | pass (now : Instant) (failures : Table String) (d : Disturbance)
  /-- A user updates an object. -/
  | update (user : Owner)
  | loss (loss : Loss)

/-- The time of a pass. -/
def Incident.time? : Incident → Option Instant
  | .pass now _ _ => some now
  | .update _ | .loss _ => none

namespace Reconciler

variable (r : Reconciler State) (space name : String)

/-- The world after an incident in the life of the object that is stored under a name. -/
def afterIncident (w : World State) : Incident → World State
  | .pass now failures d =>
    match w.store.get? space name with
    | none => w
    | some o =>
      (({ r with now } : Reconciler State).reconcileAmid d o (w.withFailures failures)).2.world
  | .update user => w.updated [user]
  | .loss loss => { w with backend := w.backend.lose loss }

/-- The world after a run of incidents. -/
def runAmid (w : World State) (incidents : List Incident) : World State :=
  incidents.foldl (r.afterIncident space name) w

end Reconciler

theorem Registry.Serves.preceded {σ : Type} {registry : Registry σ} {forge : Forge σ}
    (h : registry.Serves forge) (outside : σ → σ) :
    (registry.preceded outside).Serves (forge.preceded outside) := by
  intro factory hfactory connection other hother
  obtain ⟨original, hmem, rfl⟩ := List.mem_map.1 hfactory
  dsimp only at hother
  cases hconnect : original.connect connection with
  | error failure =>
      rw [hconnect] at hother
      cases hother
  | ok found =>
      rw [hconnect] at hother
      obtain rfl := h original hmem connection found hconnect
      exact (Except.ok.inj hother).symm

end ForgeSync
