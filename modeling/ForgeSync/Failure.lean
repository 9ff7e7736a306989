import ForgeSync.Datum

/-!
# Failures

What can go wrong while a repository is brought to its declared state. A failure is a cause; its
wording is one function. Two causes steer the callers: an addressed thing that does not exist may
be acceptable, and a write on outdated data is tried again.
-/

namespace ForgeSync

inductive Failure where
  /-- The addressed thing does not exist. -/
  | notFound (what : String)
  /-- A write met data that somebody else has changed. -/
  | conflict (kind name : String)
  /-- Configuration that is wrong or incomplete. -/
  | configuration (detail : String)
  /-- A call to the forge failed. -/
  | provider (detail : String)
  /-- Some items of a batch failed; the others stay applied. -/
  | aggregate (context : String) (total : Nat) (errors : List String)
  /-- Deletion is refused: the finalizer is missing, or the object is protected. -/
  | finalizerNotRemoved
  /-- The phase `failed` could not be persisted after an earlier failure. -/
  | statusPersist (cause persist : Failure)
  /-- A value could not be written as text or read from it. -/
  | serialization (detail : String)
  /-- A listing had not ended when the pages that it may take were used up. -/
  | unfinished
  deriving DecidableEq, Repr, Inhabited

namespace Failure

/-- The wording of a failure. -/
def message : Failure → String
  | notFound what => "Not found: " ++ what
  | conflict kind name => "Concurrency conflict: " ++ kind ++ " " ++ name ++ " was modified"
  | configuration detail => "Configuration error: " ++ detail
  | provider detail => "Provider error: " ++ detail
  | aggregate context total errors =>
    context ++ ": " ++ toString errors.length ++ " of " ++ toString total ++ " failed: " ++
      "; ".intercalate errors
  | finalizerNotRemoved => "finalizer was not removed"
  | statusPersist cause persist =>
    "failed to persist failed status (" ++ persist.message ++ ") after error: " ++ cause.message
  | serialization detail => "Serialization error: " ++ detail
  | unfinished => "listing did not end"

/-- The name of the cause. -/
def name : Failure → String
  | notFound _ => "NotFound"
  | conflict _ _ => "Conflict"
  | configuration _ => "Configuration"
  | provider _ => "Provider"
  | aggregate _ _ _ => "Aggregate"
  | finalizerNotRemoved => "FinalizerNotRemoved"
  | statusPersist _ _ => "StatusPersist"
  | serialization _ => "Serialization"
  | unfinished => "Unfinished"

def isNotFound : Failure → Bool
  | notFound _ => true
  | _ => false

def isConflict : Failure → Bool
  | conflict _ _ => true
  | _ => false

theorem isNotFound_iff {f : Failure} : f.isNotFound = true ↔ ∃ what, f = notFound what := by
  cases f <;> simp [isNotFound]

/-- The verdict on a batch of `total` items: it failed if any item did. -/
def ofBatch (context : String) (total : Nat) (errors : List String) : Except Failure Unit :=
  if errors.isEmpty then .ok () else .error (aggregate context total errors)

theorem ofBatch_eq_ok_iff {context : String} {total : Nat} {errors : List String} :
    ofBatch context total errors = .ok () ↔ errors = [] := by
  cases errors <;> simp [ofBatch]

/-! ## As data -/

/-- Name and wording, and what a batch or a second failure adds to them. -/
def encode (f : Failure) : Datum :=
  .map ([("error", .text f.name), ("message", .text f.message)] ++
    match f with
    | aggregate _ total errors => [("total", .ofNat total), ("errors", Datum.ofTexts errors)]
    | statusPersist cause persist =>
      [("original", cause.encode), ("persist", persist.encode)]
    | _ => [])

end Failure

end ForgeSync
