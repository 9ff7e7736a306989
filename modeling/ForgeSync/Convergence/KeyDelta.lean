import ForgeSync.Datum
import ForgeSync.Repository.DeployKey

/-!
# Differences of tables

What has to be added to a table and taken from it to make it another one. The two sets never
share a key: an entry whose value differs is only added again.

Main statement: `getElem?_changedEntries` says which entries differ.
-/

namespace ForgeSync

/-- The entries of `left` that `right` does not hold with the same value. -/
def changedEntries {α : Type} [DecidableEq α] (left right : Table α) : Table α :=
  left.filter fun key value => right[key]? ≠ some value

theorem getElem?_changedEntries {α : Type} [DecidableEq α] (left right : Table α)
    (key : String) :
    (changedEntries left right)[key]? = if left[key]? = right[key]? then none else left[key]? := by
  unfold changedEntries
  rw [Std.ExtTreeMap.getElem?_filter']
  cases left[key]? with
  | none => simp
  | some value =>
    by_cases h : right[key]? = some value
    · simp [h, Option.filter]
    · simp [h, Option.filter, Ne.symm h]

/-- The names that do not occur in `excluded`, each once, in the order of their first places. -/
def nameDifference (names excluded : List String) : List String :=
  (names.filter fun name => !excluded.contains name).eraseDups

/-- The changes that make a remote table of deploy keys a local one. -/
structure KeyDelta where
  /-- Keys that are missing remotely, or differ there. -/
  add : Table DeployKey
  /-- Keys that only the remote table names. -/
  remove : Table DeployKey
  deriving DecidableEq, Inhabited

namespace KeyDelta

def between (localKeys remoteKeys : Table DeployKey) : KeyDelta where
  add := changedEntries localKeys remoteKeys
  remove := (changedEntries remoteKeys localKeys).filter fun title _ => !localKeys.contains title

def isEmpty (delta : KeyDelta) : Bool :=
  delta.add.isEmpty && delta.remove.isEmpty

end KeyDelta

end ForgeSync
