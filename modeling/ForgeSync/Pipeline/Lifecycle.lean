import ForgeSync.Pipeline.Step
import ForgeSync.Settings.Basic

/-!
# The life cycle of an object

The steps around the work on the repository: they notice a requested deletion, protect new
objects, refuse the deletion of protected ones, keep the finalizer on living objects and take it
off deleted ones, and store what has changed.

Main statements: `isAllowed_iff` says when deletion is allowed, and `finalize_deleted` that the
finalizer is gone from a deleted object.
-/

namespace ForgeSync

/-- The annotation that protects an object's repository while it says yes. -/
def protectionKey : String := "repokeeper.io/deletion-protection"

/-- Whether the value of the annotation protects. Whatever is no clear no counts as yes. -/
def parseProtection (value : String) : Bool :=
  !(["false", "0", "no", "off"].contains ((Text.trim value).map Char.toLower))

namespace Lifecycle

/-! ## Rules -/

/-- The object with the annotation, unless it has one already. -/
def protect (o : Owner) : Owner :=
  if protectionKey ∈ o.metadata.annotations then o
  else o.mapMeta fun m =>
    { m with annotations := m.annotations.insert protectionKey "true" }

/-- Whether an object is protected against deletion. -/
def isProtected (rules : Rules) (o : Owner) : Bool :=
  match rules.protection with
  | some decision => decision
  | none => (o.metadata.annotations[protectionKey]?).any parseProtection

/-- The finalizer that a deleted object must carry. Where none is in use, the default one may
stand on objects from earlier days. -/
def requiredFinalizer (rules : Rules) : String :=
  rules.finalizer.getD defaultFinalizerName

/-- Whether an object may be deleted. -/
def isAllowed (rules : Rules) (o : Owner) : Bool :=
  o.metadata.hasFinalizer (requiredFinalizer rules) && !isProtected rules o

theorem isAllowed_iff {rules : Rules} {o : Owner} :
    isAllowed rules o = true ↔
      o.metadata.hasFinalizer (requiredFinalizer rules) = true ∧ isProtected rules o = false := by
  simp [isAllowed]

/-- The metadata with the finalizers that they shall have. -/
def finalize (rules : Rules) (deleted : Bool) (m : ObjectMeta) : ObjectMeta :=
  match rules.finalizer with
  | some name => if deleted then m.removeFinalizer name else m.addFinalizer name
  | none => m.removeFinalizer defaultFinalizerName

theorem finalize_deleted (rules : Rules) (m : ObjectMeta) :
    (finalize rules true m).hasFinalizer (requiredFinalizer rules) = false := by
  unfold finalize requiredFinalizer
  cases rules.finalizer with
  | none => exact ObjectMeta.hasFinalizer_removeFinalizer m _
  | some name => exact ObjectMeta.hasFinalizer_removeFinalizer m _

/-! ## Steps -/

section Steps

variable {σ : Type}

/-- Notes whether deletion was requested. -/
def checkDeleted : Step σ where
  name := "CheckIfDeleted"
  run _ := do
    modify fun pass => { pass with deleted := pass.object.isDeleting }
    return .proceed

/-- Protects living objects, if that is wanted. -/
def addProtection (enabled : Bool) : Step σ where
  name := "AddDeletionProtection"
  run _ := do
    if enabled && !(← get).deleted then Pass.modifyObject protect
    return .proceed

/-- Refuses a deletion that is not allowed. -/
def handleDeletion : Step σ where
  name := "HandleDeletion"
  run rules := do
    let pass ← get
    if pass.deleted && !isAllowed rules pass.object then throw .finalizerNotRemoved
    return .proceed

/-- Sets the finalizers. -/
def handleFinalizer : Step σ where
  name := "HandleFinalizer"
  run rules := do
    let deleted := (← get).deleted
    Pass.modifyObject fun o => o.mapMeta (finalize rules deleted)
    return .proceed

/-- Notes the version that a write has led to. -/
def noteVersion (stored : Owner) : Act (Pass σ) Unit :=
  Pass.modifyObject fun o => o.withVersion stored.metadata.resourceVersion

/-- Stores metadata and spec if one of them has changed. -/
def storeObject (rules : Rules) : Act (Pass σ) Unit := do
  let o := (← get).object
  if o.metadata ≠ rules.initial.metadata ∨ o.spec ≠ rules.initial.spec then
    noteVersion (← (World.updateObject o).within Pass.onWorld)

/-- Stores the status if it has changed. An object whose deletion is in flight may be gone by
then. -/
def storeStatus (rules : Rules) : Act (Pass σ) Unit := do
  let pass ← get
  if pass.object.status ≠ rules.initial.status then
    match ← ((World.updateStatus pass.object).within Pass.onWorld).attempt with
    | .ok stored => noteVersion stored
    | .error failure => if failure.isNotFound && pass.deleted then return () else throw failure

/-- Stores what has changed, and ends the pass. Outdated data asks for another pass. -/
def updateObject : Step σ where
  name := "UpdateObject"
  run rules := do
    match ← (do storeObject rules; storeStatus rules : Act (Pass σ) Unit).attempt with
    | .ok () => return .stop false
    | .error failure => if failure.isConflict then return .stop true else throw failure

end Steps

end Lifecycle

end ForgeSync
