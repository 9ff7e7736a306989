import ForgeSync.Pipeline.Convergence
import ForgeSync.Pipeline.Lifecycle

/-!
# Reconciliation

The standard pipeline. One pass takes an object from what is stored of it towards what its
template declares; the passes of a living object end with the object stored, and the last pass of
a deleted one with the object released.
-/

namespace ForgeSync

open Calendar (Instant)

/-- Everything that stays the same from pass to pass, and the time of the pass. -/
structure Reconciler (σ : Type) where
  settings : Settings
  registry : Registry σ
  now : Instant
  /-- Decides about protection in place of the objects. -/
  protection : Option Bool := none

namespace Reconciler

variable {σ : Type}

def convergence (r : Reconciler σ) : Convergence σ where
  registry := r.registry
  defaultDeletionPolicy := r.settings.defaultDeletionPolicy
  defaultCreationPolicy := r.settings.defaultCreationPolicy
  now := r.now

def steps (r : Reconciler σ) : List (Step σ) :=
  [Lifecycle.checkDeleted, Lifecycle.addProtection r.settings.deletionProtection,
    Lifecycle.handleDeletion, r.convergence.step, Lifecycle.handleFinalizer,
    Lifecycle.updateObject]

def stepNames (r : Reconciler σ) : List String :=
  r.steps.map (·.name)

def rules (r : Reconciler σ) (o : Owner) : Rules :=
  ⟨o, r.settings.finalizer, r.protection⟩

/-- One pass over an object. -/
def reconcile (r : Reconciler σ) (o : Owner) (w : World σ) :
    Except StepFailure Outcome × Pass σ :=
  runSteps (r.rules o) r.steps { object := o, world := w }

end Reconciler

end ForgeSync
