import ForgeSync.Convergence.KeyDelta
import ForgeSync.Forge.Basic

/-!
# CI variables

Only variables whose names are managed are ever touched, so variables of other people live beside
them. A managed name that is not wanted any more is deleted, and a wanted variable is updated, or
created where it does not exist. Every item is tried, whatever became of the others.
-/

namespace ForgeSync

/-- What became of one variable. -/
inductive VariableOutcome where
  | deleted
  | wasAbsent
  | updated
  | created
  | failed (error : String)
  deriving DecidableEq, Repr, Inhabited

namespace VariableOutcome

def error? : VariableOutcome → Option String
  | failed error => some error
  | _ => none

end VariableOutcome

/-- How many variables were changed in which way. -/
structure VariableReport where
  deleted : Nat := 0
  updated : Nat := 0
  created : Nat := 0
  deriving DecidableEq, Repr, Inhabited

def VariableReport.ofOutcomes (outcomes : List VariableOutcome) : VariableReport where
  deleted := outcomes.count .deleted
  updated := outcomes.count .updated
  created := outcomes.count .created

def VariableReport.encode (r : VariableReport) : Datum :=
  .map [("deleted", .ofNat r.deleted), ("updated", .ofNat r.updated),
    ("created", .ofNat r.created)]

/-- The managed names that are not wanted. -/
def surplusNames (managed : List String) (wanted : List CiVariable) : List String :=
  nameDifference managed (wanted.map (·.key))

/-- The wanted variables whose names are managed. -/
def managedWanted (managed : List String) (wanted : List CiVariable) : List CiVariable :=
  wanted.filter fun v => managed.contains v.key

namespace Forge

variable {σ : Type} (forge : Forge σ)

/-- Deletes a variable that is not wanted; it may be absent already. -/
def dropVariable (path name : String) : Act σ VariableOutcome := do
  match ← (forge.deleteVariable path name).attempt with
  | .ok () => return .deleted
  | .error failure =>
    if failure.isNotFound then return .wasAbsent
    else return .failed ("delete " ++ name ++ ": " ++ failure.message)

/-- Updates a wanted variable, or creates it. -/
def writeVariable (path : String) (v : CiVariable) : Act σ VariableOutcome := do
  match ← (forge.updateVariable path v).attempt with
  | .ok () => return .updated
  | .error failure =>
    if failure.isNotFound then
      match ← (forge.createVariable path v).attempt with
      | .ok () => return .created
      | .error failure => return .failed ("create " ++ v.key ++ ": " ++ failure.message)
    else return .failed ("update " ++ v.key ++ ": " ++ failure.message)

/-- Makes the managed variables of a repository the wanted ones. -/
def reconcileVariables (path : String) (managed : List String) (wanted : List CiVariable) :
    Act σ VariableReport := do
  let surplus := surplusNames managed wanted
  let written := managedWanted managed wanted
  let drops ← surplus.mapM (forge.dropVariable path)
  let writes ← written.mapM (forge.writeVariable path)
  let outcomes := drops ++ writes
  Act.ofExcept (Failure.ofBatch "CI variables" (surplus.length + written.length)
    (outcomes.filterMap VariableOutcome.error?))
  return .ofOutcomes outcomes

end Forge

end ForgeSync
