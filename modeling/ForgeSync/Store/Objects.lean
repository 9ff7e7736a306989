import ForgeSync.Owner.Basic
import ForgeSync.Failure

/-!
# The object store

Objects by namespace and name. Every write names the version of the object that it has seen; it
is refused if the stored version is another one, and otherwise the version grows by one. Writers
change metadata and spec in one call, and the status in another. Only the store sets a deletion
timestamp, and an object that has one disappears as soon as it has no finalizer.

Main statements: `update_of_stale` and `updateStatus_of_stale` say that a write on outdated data
changes nothing.
-/

namespace ForgeSync

open Calendar (Instant)

structure ObjectStore where
  objects : Table Owner := ∅
  /-- How many writes succeeded. -/
  writes : Nat := 0
  deriving DecidableEq, Inhabited

namespace ObjectStore

def get? (store : ObjectStore) (space name : String) : Option Owner :=
  store.objects[storeKey space name]?

def contains (store : ObjectStore) (space name : String) : Bool :=
  store.objects.contains (storeKey space name)

/-- Stores an object as a fresh version, in place of any under its key; gives the stored copy. -/
def insert (store : ObjectStore) (o : Owner) : Owner × ObjectStore :=
  let version := (store.objects[o.key]?.map (·.metadata.resourceVersion)).getD 0
  let stored := o.withVersion (version + 1)
  (stored, { store with objects := store.objects.insert o.key stored })

/-- Whether an object with a deletion timestamp has nothing left that keeps it. -/
def isReleased (m : ObjectMeta) : Bool :=
  m.isDeleting && m.finalizers.isEmpty

/-- Marks an object for deletion; the version grows if it was not marked before. -/
def markDeleted (now : Instant) (o : Owner) : Owner :=
  if o.isDeleting then o
  else
    (o.mapMeta fun m => { m with deletionTimestamp := some now }).withVersion
      (o.metadata.resourceVersion + 1)

theorem isDeleting_markDeleted (now : Instant) (o : Owner) :
    (markDeleted now o).isDeleting = true := by
  unfold markDeleted
  split
  · assumption
  · rfl

theorem finalizers_markDeleted (now : Instant) (o : Owner) :
    (markDeleted now o).metadata.finalizers = o.metadata.finalizers := by
  unfold markDeleted
  split <;> rfl

theorem spec_markDeleted (now : Instant) (o : Owner) : (markDeleted now o).spec = o.spec := by
  unfold markDeleted
  split <;> rfl

/-- Requests the deletion of an object. -/
def requestDeletion (store : ObjectStore) (now : Instant) (space name : String) :
    Except Failure ObjectStore :=
  let key := storeKey space name
  match store.objects[key]? with
  | none => .error (.notFound key)
  | some o =>
    let marked := markDeleted now o
    .ok { store with
      objects :=
        if marked.metadata.finalizers.isEmpty then store.objects.erase key
        else store.objects.insert key marked }

/-- The stored object that a write is about, if the write has seen its version. -/
def current (store : ObjectStore) (o : Owner) : Except Failure Owner :=
  match store.objects[o.key]? with
  | none => .error (.notFound (o.kind.name ++ " " ++ o.key))
  | some stored =>
    if stored.metadata.resourceVersion = o.metadata.resourceVersion then .ok stored
    else .error (.conflict o.kind.name o.key)

/-- What an update of metadata and spec stores. -/
def updated (stored o : Owner) : Owner :=
  { metadata :=
      { o.metadata with
        resourceVersion := o.metadata.resourceVersion + 1
        deletionTimestamp := stored.metadata.deletionTimestamp }
    spec := o.spec
    status := stored.status }

/-- What an update of the status stores. -/
def statusUpdated (stored o : Owner) : Owner :=
  { stored with status := o.status }.withVersion (stored.metadata.resourceVersion + 1)

/-- Stores metadata and spec of an object; gives the object as it is then. -/
def update (store : ObjectStore) (o : Owner) : Except Failure Owner × ObjectStore :=
  match store.current o with
  | .error failure => (.error failure, store)
  | .ok stored =>
    let next := updated stored o
    let objects :=
      if isReleased next.metadata then store.objects.erase o.key
      else store.objects.insert o.key next
    (.ok next, { objects, writes := store.writes + 1 })

/-- Stores the status of an object; gives the object as it is then. -/
def updateStatus (store : ObjectStore) (o : Owner) : Except Failure Owner × ObjectStore :=
  match store.current o with
  | .error failure => (.error failure, store)
  | .ok stored =>
    let next := statusUpdated stored o
    (.ok next, { objects := store.objects.insert o.key next, writes := store.writes + 1 })

theorem update_of_stale {store : ObjectStore} {o : Owner} {failure : Failure}
    (h : store.current o = .error failure) : store.update o = (.error failure, store) := by
  simp [update, h]

theorem updateStatus_of_stale {store : ObjectStore} {o : Owner} {failure : Failure}
    (h : store.current o = .error failure) : store.updateStatus o = (.error failure, store) := by
  simp [updateStatus, h]

end ObjectStore

end ForgeSync
