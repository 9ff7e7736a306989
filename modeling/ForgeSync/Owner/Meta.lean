import ForgeSync.Calendar.Timestamp
import ForgeSync.Datum

/-!
# Metadata of stored objects

Name, version, deletion mark, finalizers, annotations and labels. A finalizer keeps an object
whose deletion was requested in the store until somebody takes the finalizer off.
-/

namespace ForgeSync

open Calendar (Instant)

structure ObjectMeta where
  name : String
  space : String := ""
  /-- How often the stored object was written; a write carries the version that it has seen. -/
  resourceVersion : Nat := 0
  /-- When deletion was requested, if it was. -/
  deletionTimestamp : Option Instant := none
  finalizers : List String := []
  annotations : Table String := ∅
  labels : Table String := ∅
  deriving DecidableEq, Inhabited

namespace ObjectMeta

def hasFinalizer (m : ObjectMeta) (finalizer : String) : Bool :=
  m.finalizers.contains finalizer

/-- Adds a finalizer at the end, unless it is there. -/
def addFinalizer (m : ObjectMeta) (finalizer : String) : ObjectMeta :=
  if m.hasFinalizer finalizer then m else { m with finalizers := m.finalizers ++ [finalizer] }

/-- Takes off every occurrence of a finalizer. -/
def removeFinalizer (m : ObjectMeta) (finalizer : String) : ObjectMeta :=
  { m with finalizers := m.finalizers.filter (· ≠ finalizer) }

@[simp]
theorem hasFinalizer_addFinalizer (m : ObjectMeta) (f : String) :
    (m.addFinalizer f).hasFinalizer f = true := by
  unfold addFinalizer
  split
  · assumption
  · simp [hasFinalizer]

@[simp]
theorem hasFinalizer_removeFinalizer (m : ObjectMeta) (f : String) :
    (m.removeFinalizer f).hasFinalizer f = false := by
  simp [hasFinalizer, removeFinalizer]

/-- Whether deletion was requested. -/
def isDeleting (m : ObjectMeta) : Bool :=
  m.deletionTimestamp.isSome

def encode (m : ObjectMeta) : Datum :=
  .map (
    [("name", .text m.name), ("namespace", .text m.space),
      ("resourceVersion", .ofNat m.resourceVersion)] ++
    Datum.memberIfSome "deletionTimestamp" Instant.encode m.deletionTimestamp ++
    (if m.finalizers.isEmpty then [] else [("finalizers", Datum.ofTexts m.finalizers)]) ++
    (if m.annotations.isEmpty then []
      else [("annotations", Datum.ofTable Datum.text m.annotations)]) ++
    (if m.labels.isEmpty then [] else [("labels", Datum.ofTable Datum.text m.labels)]))

def fieldNames : List String :=
  ["name", "namespace", "resourceVersion", "deletionTimestamp", "finalizers", "annotations",
    "labels"]

def decode? (d : Datum) : Option ObjectMeta :=
  match d.fields? fieldNames with
  | some [name, space, resourceVersion, deletionTimestamp, finalizers, annotations, labels] => do
    return {
      name := ← Datum.required Datum.text? name
      space := ← Datum.defaulted "" Datum.text? space
      resourceVersion := ← Datum.defaulted 0 (Datum.natBelow? Text.bound64) resourceVersion
      deletionTimestamp := ← Datum.option Instant.decode? deletionTimestamp
      finalizers := ← Datum.defaulted [] Datum.texts? finalizers
      annotations := ← Datum.defaulted ∅ (Datum.tableOf? Datum.text?) annotations
      labels := ← Datum.defaulted ∅ (Datum.tableOf? Datum.text?) labels }
  | _ => none

end ObjectMeta

end ForgeSync
