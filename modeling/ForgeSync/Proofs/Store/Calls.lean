import ForgeSync.Store.Objects

/-!
# Clients of the object store

Several clients read objects, write copies that they have read before and request deletions, one
call after the other in any order. What such a run makes of the object under one key depends on
the calls that change it alone: a write is refused as soon as another change came between it and
the copy that it carries.

Main statements: `getElem?_perform` says what one call makes of an object, `follows_performAll`
what a run makes of it, and `serialized_of_live` what the clients can rely on.
-/

namespace ForgeSync

open Calendar (Instant)

namespace ObjectStore

/-! ## Calls -/

/-- The part of an object that a write stores: metadata and spec, or the status. -/
inductive Part where
  | object
  | status
  deriving DecidableEq, Repr

/-- Stores a part of an object; gives the object as it is then. -/
def write (store : ObjectStore) (part : Part) (copy : Owner) :
    Except Failure Owner × ObjectStore :=
  match part with
  | .object => store.update copy
  | .status => store.updateStatus copy

/-- What a write makes of the stored object. -/
def revised (part : Part) (stored copy : Owner) : Owner :=
  match part with
  | .object => updated stored copy
  | .status => statusUpdated stored copy

/-- What is left of an object in the store. -/
def kept (o : Owner) : Option Owner :=
  if isReleased o.metadata then none else some o

inductive Call where
  | get (space name : String)
  | insert (o : Owner)
  | write (part : Part) (copy : Owner)
  | requestDeletion (now : Instant) (space name : String)

namespace Call

/-- Whether a call puts an object of its own under a key. -/
def Inserts (key : String) : Call → Prop
  | insert o => o.key = key
  | _ => False

/-- What a call makes of an object that it changes. -/
def revise (stored : Owner) : Call → Owner
  | write part copy => revised part stored copy
  | requestDeletion now _ _ => markDeleted now stored
  | _ => stored

end Call

/-- The store after a call. -/
def perform (store : ObjectStore) : Call → ObjectStore
  | .get _ _ => store
  | .insert o => (store.insert o).2
  | .write part copy => (store.write part copy).2
  | .requestDeletion now space name => (store.requestDeletion now space name).toOption.getD store

/-- The store after a run of calls. -/
def performAll (store : ObjectStore) (calls : List Call) : ObjectStore :=
  calls.foldl perform store

/-- Whether a call changes the object under a key: a write that succeeds, or the first request to
delete it. -/
def isChange (key : String) (store : ObjectStore) : Call → Bool
  | .get _ _ => false
  | .insert o => o.key = key
  | .write part copy => copy.key = key && (store.write part copy).1.isOk
  | .requestDeletion _ space name =>
    storeKey space name = key && (store.objects[key]?).any (!·.isDeleting)

/-- What a call makes of the object under a key. -/
def nextOf (key : String) (store : ObjectStore) (stored : Owner) (call : Call) : Owner :=
  if store.isChange key call then call.revise stored else stored

/-- Whether a call drops the object under a key if nothing holds what it makes of it. A status is
written to such an object as well. -/
def dropsReleased (key : String) (store : ObjectStore) : Call → Bool
  | .write .object copy => copy.key = key && (store.write .object copy).1.isOk
  | .requestDeletion _ space name => storeKey space name = key
  | _ => false

/-- How many calls of a run change the object under a key. -/
def changes (key : String) (store : ObjectStore) : List Call → Nat
  | [] => 0
  | call :: rest => (store.isChange key call).toNat + changes key (store.perform call) rest

variable {store : ObjectStore} {key : String} {stored : Owner}

theorem performAll_append (first rest : List Call) :
    store.performAll (first ++ rest) = (store.performAll first).performAll rest :=
  List.foldl_append

/-! ## Writes -/

section Writes

variable {part : Part} {copy : Owner}

theorem write_of_refused {failure : Failure} (h : store.current copy = .error failure) :
    store.write part copy = (.error failure, store) := by
  cases part with
  | object => exact update_of_stale h
  | status => exact updateStatus_of_stale h

theorem write_of_current (h : store.current copy = .ok stored) :
    (store.write part copy).1 = .ok (revised part stored copy) := by
  cases part <;> simp [write, update, updateStatus, revised, h]

theorem current_of_absent (h : store.objects[copy.key]? = none) :
    store.current copy = .error (.notFound (copy.kind.name ++ " " ++ copy.key)) := by
  simp [current, h]

/-- A write is let through exactly on the stored version. -/
theorem current_ok_iff :
    store.current copy = .ok stored ↔
      store.objects[copy.key]? = some stored ∧
        stored.metadata.resourceVersion = copy.metadata.resourceVersion := by
  unfold current
  cases hslot : store.objects[copy.key]? with
  | none => simp
  | some other =>
    by_cases hversion : other.metadata.resourceVersion = copy.metadata.resourceVersion
    · simp only [hversion, if_true, Except.ok.injEq, Option.some.injEq]
      constructor
      · rintro rfl
        exact ⟨rfl, hversion⟩
      · exact And.left
    · simp only [hversion, if_false, reduceCtorEq, Option.some.injEq, false_iff]
      rintro ⟨rfl, hsame⟩
      exact hversion hsame

theorem write_ok_iff {next : Owner} :
    (store.write part copy).1 = .ok next ↔
      ∃ stored, store.current copy = .ok stored ∧ next = revised part stored copy := by
  cases hcurrent : store.current copy with
  | error failure => simp [write_of_refused hcurrent]
  | ok stored => simp [write_of_current hcurrent, eq_comm]

theorem current_of_stale (hslot : store.objects[copy.key]? = some stored)
    (hversion : stored.metadata.resourceVersion ≠ copy.metadata.resourceVersion) :
    store.current copy = .error (.conflict copy.kind.name copy.key) := by
  simp [current, hslot, hversion]

theorem isOk_write (hslot : store.objects[copy.key]? = some stored) :
    (store.write part copy).1.isOk =
      decide (stored.metadata.resourceVersion = copy.metadata.resourceVersion) := by
  by_cases hversion : stored.metadata.resourceVersion = copy.metadata.resourceVersion
  · have hcurrent := current_ok_iff.2 ⟨hslot, hversion⟩
    simp [write_of_current hcurrent, Except.isOk, Except.toBool, hversion]
  · simp [write_of_refused (current_of_stale hslot hversion), Except.isOk, Except.toBool, hversion]

theorem getElem?_write_object (hcurrent : store.current copy = .ok stored) :
    (store.write .object copy).2.objects[copy.key]? = kept (updated stored copy) := by
  by_cases hreleased : isReleased (updated stored copy).metadata = true
  · simp [write, update, hcurrent, kept, hreleased]
  · simp [write, update, hcurrent, kept, hreleased]

theorem getElem?_write_status (hcurrent : store.current copy = .ok stored) :
    (store.write .status copy).2.objects[copy.key]? = some (statusUpdated stored copy) := by
  simp [write, updateStatus, hcurrent]

/-- What a write leaves under its key. -/
theorem getElem?_write (hcurrent : store.current copy = .ok stored)
    (hkept : isReleased stored.metadata = false) :
    (store.write part copy).2.objects[copy.key]? = kept (revised part stored copy) := by
  cases part with
  | object => exact getElem?_write_object hcurrent
  | status =>
    -- this write never drops an object, and it need not: a released one is not stored
    have hnext : isReleased (statusUpdated stored copy).metadata = false := hkept
    simp [getElem?_write_status hcurrent, revised, kept, hnext]

theorem getElem?_write_of_ne (hkey : copy.key ≠ key) :
    (store.write part copy).2.objects[key]? = store.objects[key]? := by
  cases hcurrent : store.current copy with
  | error failure => rw [write_of_refused hcurrent]
  | ok stored =>
    cases part with
    | object =>
      simp only [write, update, hcurrent]
      split <;> simp [Std.ExtTreeMap.getElem?_erase, Std.ExtTreeMap.getElem?_insert, hkey]
    | status => simp [write, updateStatus, hcurrent, Std.ExtTreeMap.getElem?_insert, hkey]

end Writes

/-! ## Requests for deletion -/

section Deletion

variable {now : Instant} {space name : String}

theorem kept_markDeleted (now : Instant) (o : Owner) :
    kept (markDeleted now o) =
      if o.metadata.finalizers.isEmpty then none else some (markDeleted now o) := by
  have hdeleting : (markDeleted now o).metadata.isDeleting = true := isDeleting_markDeleted now o
  simp [kept, isReleased, hdeleting, finalizers_markDeleted]

theorem perform_requestDeletion_of_absent (h : store.objects[storeKey space name]? = none) :
    store.perform (.requestDeletion now space name) = store := by
  simp [perform, requestDeletion, h, Except.toOption]

theorem getElem?_perform_requestDeletion
    (h : store.objects[storeKey space name]? = some stored) :
    (store.perform (.requestDeletion now space name)).objects[storeKey space name]? =
      kept (markDeleted now stored) := by
  rw [kept_markDeleted]
  by_cases hempty : stored.metadata.finalizers.isEmpty = true
  · simp [perform, requestDeletion, h, Except.toOption, finalizers_markDeleted, hempty]
  · simp [perform, requestDeletion, h, Except.toOption, finalizers_markDeleted, hempty]

theorem getElem?_perform_requestDeletion_of_ne (hkey : storeKey space name ≠ key) :
    (store.perform (.requestDeletion now space name)).objects[key]? = store.objects[key]? := by
  cases hslot : store.objects[storeKey space name]? with
  | none => rw [perform_requestDeletion_of_absent hslot]
  | some o =>
    simp only [perform, requestDeletion, hslot, Except.toOption, Option.getD_some]
    split <;> simp [Std.ExtTreeMap.getElem?_erase, Std.ExtTreeMap.getElem?_insert, hkey]

end Deletion

/-! ## One call -/

section Steps

variable {call : Call}

/-- What a call leaves of an object that is in the store. -/
theorem getElem?_perform (hforeign : ¬call.Inserts key)
    (hslot : store.objects[key]? = some stored) :
    (store.perform call).objects[key]? =
      if store.dropsReleased key call then kept (store.nextOf key stored call)
      else some (store.nextOf key stored call) := by
  cases call with
  | get space name => simpa [perform, dropsReleased, nextOf, isChange] using hslot
  | insert o =>
    have hkey : o.key ≠ key := hforeign
    simp [perform, insert, dropsReleased, nextOf, isChange, Std.ExtTreeMap.getElem?_insert, hkey,
      hslot]
  | write part copy =>
    by_cases hkey : copy.key = key
    · subst hkey
      by_cases hversion : stored.metadata.resourceVersion = copy.metadata.resourceVersion
      · have hcurrent := current_ok_iff.2 ⟨hslot, hversion⟩
        cases part with
        | object =>
          simp [perform, dropsReleased, nextOf, isChange, isOk_write hslot, hversion, Call.revise,
            revised, getElem?_write_object hcurrent]
        | status =>
          simp [perform, dropsReleased, nextOf, isChange, isOk_write hslot, hversion, Call.revise,
            revised, getElem?_write_status hcurrent]
      · have hrefused : ∀ part, store.write part copy = _ :=
          fun part => write_of_refused (current_of_stale hslot hversion)
        cases part <;>
          simp [perform, dropsReleased, nextOf, isChange, hrefused, Except.isOk, Except.toBool, hslot]
    · cases part <;>
        simp [perform, dropsReleased, nextOf, isChange, hkey, hslot, getElem?_write_of_ne hkey]
  | requestDeletion now space name =>
    by_cases hkey : storeKey space name = key
    · subst hkey
      rw [getElem?_perform_requestDeletion hslot]
      -- an object whose deletion is in flight is only deleted again
      cases hdeleting : stored.isDeleting <;>
        simp [dropsReleased, nextOf, isChange, hslot, hdeleting, Call.revise, markDeleted]
    · rw [getElem?_perform_requestDeletion_of_ne hkey]
      simp [dropsReleased, nextOf, isChange, hkey, hslot]

/-- A change that does not look whether anything holds the object lets nothing go. -/
theorem isReleased_revise (hdrops : store.dropsReleased key call = false)
    (hchange : store.isChange key call = true) :
    isReleased (call.revise stored).metadata = isReleased stored.metadata := by
  cases call with
  | get space name => rfl
  | insert o => rfl
  | write part copy =>
    cases part with
    | object => exact absurd (hchange.symm.trans hdrops) nofun
    | status => rfl
  | requestDeletion now space name =>
    simp only [isChange, Bool.and_eq_true] at hchange
    exact absurd (hchange.1.symm.trans hdrops) nofun

/-- Of an object that something holds a call leaves what it makes of it, if that is still held. -/
theorem getElem?_perform_of_kept (hforeign : ¬call.Inserts key)
    (hslot : store.objects[key]? = some stored) (hkept : isReleased stored.metadata = false) :
    (store.perform call).objects[key]? =
      if store.isChange key call then kept (call.revise stored) else some stored := by
  rw [getElem?_perform hforeign hslot, nextOf]
  cases hchange : store.isChange key call with
  | false => cases store.dropsReleased key call <;> simp [kept, hkept]
  | true =>
    cases hdrops : store.dropsReleased key call with
    | true => rfl
    | false => simp [kept, isReleased_revise hdrops hchange, hkept]

/-- No call brings an object back, unless it inserts one. -/
theorem getElem?_perform_of_absent (hforeign : ¬call.Inserts key)
    (habsent : store.objects[key]? = none) : (store.perform call).objects[key]? = none := by
  cases call with
  | get space name => exact habsent
  | insert o =>
    have hkey : o.key ≠ key := hforeign
    simpa [perform, insert, Std.ExtTreeMap.getElem?_insert, hkey] using habsent
  | write part copy =>
    by_cases hkey : copy.key = key
    · subst hkey
      simpa [perform, write_of_refused (current_of_absent habsent)] using habsent
    · rw [perform, getElem?_write_of_ne hkey, habsent]
  | requestDeletion now space name =>
    by_cases hkey : storeKey space name = key
    · subst hkey
      rw [perform_requestDeletion_of_absent habsent, habsent]
    · rw [getElem?_perform_requestDeletion_of_ne hkey, habsent]

/-- Every change makes the next version. -/
theorem resourceVersion_revise (hforeign : ¬call.Inserts key)
    (hslot : store.objects[key]? = some stored) (hchange : store.isChange key call = true) :
    (call.revise stored).metadata.resourceVersion = stored.metadata.resourceVersion + 1 := by
  cases call with
  | get space name => cases hchange
  | insert o =>
    have hkey : o.key = key := by simpa [isChange] using hchange
    exact absurd hkey hforeign
  | write part copy =>
    simp only [isChange, Bool.and_eq_true, decide_eq_true_eq] at hchange
    obtain ⟨rfl, hok⟩ := hchange
    have hversion : stored.metadata.resourceVersion = copy.metadata.resourceVersion := by
      simpa [isOk_write hslot] using hok
    cases part with
    | object => simp [Call.revise, revised, updated, hversion]
    | status => rfl
  | requestDeletion now space name =>
    have hlive : stored.isDeleting = false := by
      simp only [isChange, hslot, Bool.and_eq_true] at hchange
      simpa using hchange.2
    simp [Call.revise, markDeleted, hlive, Owner.withVersion, Owner.mapMeta]

/-- No change takes a deletion timestamp back or sets another one. -/
theorem deletionTimestamp_revise {t : Instant}
    (ht : stored.metadata.deletionTimestamp = some t) :
    (call.revise stored).metadata.deletionTimestamp = some t := by
  cases call with
  | get space name => exact ht
  | insert o => exact ht
  | write part copy => cases part <;> exact ht
  | requestDeletion now space name =>
    have hdeleting : stored.isDeleting = true := by
      simp [Owner.isDeleting, ObjectMeta.isDeleting, ht]
    simpa [Call.revise, markDeleted, hdeleting] using ht

end Steps

/-! ## Runs -/

section Runs

/-- An object is what a number of changes has made of an earlier one. -/
structure Follows (stored : Owner) (count : Nat) (later : Owner) : Prop where
  notReleased : isReleased later.metadata = false
  version : later.metadata.resourceVersion = stored.metadata.resourceVersion + count
  timestamp : ∀ t, stored.metadata.deletionTimestamp = some t →
    later.metadata.deletionTimestamp = some t

theorem Follows.refl (hkept : isReleased stored.metadata = false) : Follows stored 0 stored :=
  ⟨hkept, rfl, fun _ => id⟩

theorem Follows.trans {middle later : Owner} {first rest : Nat} (h : Follows stored first middle)
    (hrest : Follows middle rest later) : Follows stored (first + rest) later where
  notReleased := hrest.notReleased
  version := by rw [hrest.version, h.version, Nat.add_assoc]
  timestamp t ht := hrest.timestamp t (h.timestamp t ht)

theorem kept_eq_some {o later : Owner} (h : kept o = some later) :
    o = later ∧ isReleased later.metadata = false := by
  cases hreleased : isReleased o.metadata with
  | true => simp [kept, hreleased] at h
  | false =>
    obtain rfl : o = later := by simpa [kept, hreleased] using h
    exact ⟨rfl, hreleased⟩

theorem follows_perform {call : Call} {later : Owner} (hforeign : ¬call.Inserts key)
    (hslot : store.objects[key]? = some stored) (hkept : isReleased stored.metadata = false)
    (hlater : (store.perform call).objects[key]? = some later) :
    Follows stored (store.isChange key call).toNat later := by
  rw [getElem?_perform_of_kept hforeign hslot hkept] at hlater
  cases hchange : store.isChange key call with
  | false =>
    obtain rfl : stored = later := by simpa [hchange] using hlater
    exact .refl hkept
  | true =>
    have hnext : kept (call.revise stored) = some later := by simpa [hchange] using hlater
    obtain ⟨rfl, hreleased⟩ := kept_eq_some hnext
    exact ⟨hreleased, resourceVersion_revise hforeign hslot hchange,
      fun t ht => deletionTimestamp_revise ht⟩

theorem getElem?_performAll_of_absent {calls : List Call}
    (hforeign : ∀ call ∈ calls, ¬call.Inserts key) (habsent : store.objects[key]? = none) :
    (store.performAll calls).objects[key]? = none := by
  induction calls generalizing store with
  | nil => exact habsent
  | cons call rest ih =>
    rw [List.forall_mem_cons] at hforeign
    exact ih hforeign.2 (getElem?_perform_of_absent hforeign.1 habsent)

/-- What is left of an object after a run of calls is what the changes of the run made of it. -/
theorem follows_performAll {calls : List Call} {later : Owner}
    (hforeign : ∀ call ∈ calls, ¬call.Inserts key) (hslot : store.objects[key]? = some stored)
    (hkept : isReleased stored.metadata = false)
    (hlater : (store.performAll calls).objects[key]? = some later) :
    Follows stored (store.changes key calls) later := by
  induction calls generalizing store stored with
  | nil =>
    obtain rfl : stored = later := by simpa [performAll, hslot] using hlater
    exact .refl hkept
  | cons call rest ih =>
    obtain ⟨hhere, hrest⟩ := List.forall_mem_cons.1 hforeign
    -- the first call may have dropped the object, but then it is not there at the end
    cases hmiddle : (store.perform call).objects[key]? with
    | none =>
      have hgone := getElem?_performAll_of_absent hrest hmiddle
      rw [performAll, List.foldl_cons] at hlater
      rw [performAll, hlater] at hgone
      cases hgone
    | some middle =>
      have hstep := follows_perform hhere hslot hkept hmiddle
      exact hstep.trans (ih hrest hmiddle hstep.notReleased hlater)

theorem notReleased_performAll {calls : List Call} {later : Owner}
    (hforeign : ∀ call ∈ calls, ¬call.Inserts key) (hslot : store.objects[key]? = some stored)
    (hkept : isReleased stored.metadata = false)
    (hlater : (store.performAll calls).objects[key]? = some later) :
    isReleased later.metadata = false :=
  (follows_performAll hforeign hslot hkept hlater).notReleased

/-- Without a change the object stays as it is. -/
theorem getElem?_performAll_of_unchanged {calls : List Call}
    (hforeign : ∀ call ∈ calls, ¬call.Inserts key) (hslot : store.objects[key]? = some stored)
    (hkept : isReleased stored.metadata = false) (hquiet : store.changes key calls = 0) :
    (store.performAll calls).objects[key]? = some stored := by
  induction calls generalizing store with
  | nil => exact hslot
  | cons call rest ih =>
    simp only [changes, Nat.add_eq_zero_iff, Bool.toNat_eq_zero] at hquiet
    obtain ⟨hhere, hrest⟩ := List.forall_mem_cons.1 hforeign
    have hstep := getElem?_perform_of_kept hhere hslot hkept
    rw [hquiet.1] at hstep
    exact ih hrest hstep hquiet.2

end Runs

/-! ## What clients can rely on -/

/-- What a successful write makes of the stored object. -/
structure Accepts (part : Part) (stored copy next : Owner) : Prop where
  seen : stored.metadata.resourceVersion = copy.metadata.resourceVersion
  version : next.metadata.resourceVersion = stored.metadata.resourceVersion + 1
  /-- A write of the object stores its metadata and spec, but neither status nor deletion. -/
  object : part = .object →
    next.status = stored.status ∧
      next.metadata.deletionTimestamp = stored.metadata.deletionTimestamp ∧
      next.spec = copy.spec ∧ next.metadata.finalizers = copy.metadata.finalizers
  /-- A write of the status stores nothing else. -/
  status : part = .status →
    next = { stored with status := copy.status }.withVersion
      (stored.metadata.resourceVersion + 1)

/-- What the clients can rely on after a run of calls on a store that held an object under a
key. -/
structure Serialized (key : String) (start : ObjectStore) (calls : List Call) : Prop where
  /-- A write with a copy from an earlier moment succeeds if there was no change since, and not
  otherwise. -/
  succeeds_iff : ∀ earlier since seen part copy, earlier ++ since = calls →
    (start.performAll earlier).objects[key]? = some seen → copy.key = key →
    copy.metadata.resourceVersion = seen.metadata.resourceVersion →
      (((start.performAll calls).write part copy).1.isOk = true ↔
        (start.performAll earlier).changes key since = 0)
  /-- The version counts the changes. -/
  version : ∀ earlier since seen later, earlier ++ since = calls →
    (start.performAll earlier).objects[key]? = some seen →
    (start.performAll calls).objects[key]? = some later →
      later.metadata.resourceVersion =
        seen.metadata.resourceVersion + (start.performAll earlier).changes key since
  refused : ∀ part copy failure,
    ((start.performAll calls).write part copy).1 = .error failure →
      ((start.performAll calls).write part copy).2 = start.performAll calls
  succeeded : ∀ part copy next, copy.key = key →
    ((start.performAll calls).write part copy).1 = .ok next →
      ∃ stored, (start.performAll calls).objects[key]? = some stored ∧
        Accepts part stored copy next ∧
        ((start.performAll calls).write part copy).2.objects[key]? = kept next
  /-- A deletion timestamp that was set once stays. -/
  timestamp : ∀ earlier since seen t, earlier ++ since = calls →
    (start.performAll earlier).objects[key]? = some seen →
    seen.metadata.deletionTimestamp = some t →
      ∀ later, (start.performAll calls).objects[key]? = some later →
        later.metadata.deletionTimestamp = some t
  notReleased : ∀ stored, (start.performAll calls).objects[key]? = some stored →
    isReleased stored.metadata = false
  /-- An object is dropped by the change that leaves a deletion timestamp and no finalizers. -/
  dropped_iff : ∀ call stored, ¬call.Inserts key →
    (start.performAll calls).objects[key]? = some stored →
      (((start.performAll calls).perform call).objects[key]? = none ↔
        (start.performAll calls).isChange key call = true ∧
          isReleased (call.revise stored).metadata = true)
  /-- Once an object was dropped it stays away, and every write is told so. -/
  absent : ∀ earlier since, earlier ++ since = calls →
    (start.performAll earlier).objects[key]? = none →
      (start.performAll calls).objects[key]? = none ∧
        ∀ part copy, copy.key = key →
          (start.performAll calls).write part copy =
            (.error (.notFound (copy.kind.name ++ " " ++ key)), start.performAll calls)

theorem Accepts.of_current {part : Part} {copy : Owner}
    (hversion : stored.metadata.resourceVersion = copy.metadata.resourceVersion) :
    Accepts part stored copy (revised part stored copy) where
  seen := hversion
  version := by
    cases part with
    | object => simp [revised, updated, hversion]
    | status => rfl
  object := by
    rintro rfl
    exact ⟨rfl, rfl, rfl, rfl⟩
  status := by
    rintro rfl
    rfl

section Serialized

variable {start : ObjectStore} {first : Owner} {calls since : List Call}

/-- A write with the version of an earlier moment succeeds when the versions agree, and these
count the changes. -/
theorem isOk_write_of_seen {seen copy : Owner} {part : Part}
    (hforeign : ∀ call ∈ since, ¬call.Inserts copy.key)
    (hseen : store.objects[copy.key]? = some seen) (hkept : isReleased seen.metadata = false)
    (hversion : copy.metadata.resourceVersion = seen.metadata.resourceVersion) :
    ((store.performAll since).write part copy).1.isOk = true ↔
      store.changes copy.key since = 0 := by
  cases hlater : (store.performAll since).objects[copy.key]? with
  | none =>
    have hchanged : store.changes copy.key since ≠ 0 := by
      intro hquiet
      have hsame := getElem?_performAll_of_unchanged hforeign hseen hkept hquiet
      rw [hlater] at hsame
      cases hsame
    simp [write_of_refused (current_of_absent hlater), Except.isOk, Except.toBool, hchanged]
  | some later =>
    have hcount := (follows_performAll hforeign hseen hkept hlater).version
    rw [isOk_write hlater, decide_eq_true_eq]
    omega

theorem serialized_of_stored (hforeign : ∀ call ∈ calls, ¬call.Inserts key)
    (hfirst : start.objects[key]? = some first) (hkept : isReleased first.metadata = false) :
    Serialized key start calls where
  succeeds_iff := by
    rintro earlier since seen part copy rfl hseen rfl hversion
    obtain ⟨hbefore, hafter⟩ := List.forall_mem_append.1 hforeign
    have hseenKept := notReleased_performAll hbefore hfirst hkept hseen
    rw [performAll_append]
    exact isOk_write_of_seen hafter hseen hseenKept hversion
  version := by
    rintro earlier since seen later rfl hseen hlater
    obtain ⟨hbefore, hafter⟩ := List.forall_mem_append.1 hforeign
    have hseenKept := notReleased_performAll hbefore hfirst hkept hseen
    rw [performAll_append] at hlater
    exact (follows_performAll hafter hseen hseenKept hlater).version
  refused := by
    intro part copy failure hrefused
    cases hcurrent : (start.performAll calls).current copy with
    | error other => rw [write_of_refused hcurrent]
    | ok stored =>
      rw [write_of_current hcurrent] at hrefused
      cases hrefused
  succeeded := by
    rintro part copy next rfl hnext
    obtain ⟨stored, hcurrent, rfl⟩ := write_ok_iff.1 hnext
    obtain ⟨hstored, hversion⟩ := current_ok_iff.1 hcurrent
    have hstoredKept := notReleased_performAll hforeign hfirst hkept hstored
    exact ⟨stored, hstored, .of_current hversion, getElem?_write hcurrent hstoredKept⟩
  timestamp := by
    rintro earlier since seen t rfl hseen ht later hlater
    obtain ⟨hbefore, hafter⟩ := List.forall_mem_append.1 hforeign
    have hseenKept := notReleased_performAll hbefore hfirst hkept hseen
    rw [performAll_append] at hlater
    exact (follows_performAll hafter hseen hseenKept hlater).timestamp t ht
  notReleased stored hstored := notReleased_performAll hforeign hfirst hkept hstored
  dropped_iff := by
    intro call stored hcall hstored
    have hstoredKept := notReleased_performAll hforeign hfirst hkept hstored
    rw [getElem?_perform_of_kept hcall hstored hstoredKept]
    cases hchange : (start.performAll calls).isChange key call <;> simp [kept]
  absent := by
    rintro earlier since rfl hgone
    have hafter := (List.forall_mem_append.1 hforeign).2
    have habsent := getElem?_performAll_of_absent hafter hgone
    rw [← performAll_append] at habsent
    refine ⟨habsent, ?_⟩
    rintro part copy rfl
    exact write_of_refused (current_of_absent habsent)

end Serialized

/-- Whatever clients do with an object that was stored alive, no write overwrites another one that
its author has not seen. -/
theorem serialized_of_live (base : ObjectStore) (o : Owner)
    (hlive : o.metadata.deletionTimestamp = none) (calls : List Call)
    (hforeign : ∀ call ∈ calls, ¬call.Inserts o.key) :
    Serialized o.key (base.insert o).2 calls := by
  have hstored : (base.insert o).2.objects[o.key]? = some (base.insert o).1 := by simp [insert]
  have hkept : isReleased (base.insert o).1.metadata = false := by
    simp [insert, isReleased, ObjectMeta.isDeleting, Owner.withVersion, Owner.mapMeta, hlive]
  exact serialized_of_stored hforeign hstored hkept

/-- A tenant that a finalizer holds. -/
def sampleHeld : Owner where
  metadata := { name := "t", space := "ns", finalizers := ["keep"] }

/-- A copy of the tenant that was read when it had just been stored. -/
def sampleCopy : Owner :=
  sampleHeld.withVersion 1

/-- The status of the tenant is written, its deletion requested, and its finalizer taken off. -/
def sampleCalls : List Call :=
  [.write .status sampleCopy, .requestDeletion ⟨0, 0⟩ "ns" "t",
    .write .object { metadata := { name := "t", space := "ns", resourceVersion := 3 } }]

/-- The copy cannot be written once the status was, and after the third call it finds nothing. -/
theorem serialized_of_live_sampleCalls :
    let start := (({} : ObjectStore).insert sampleHeld).2
    ((start.performAll (sampleCalls.take 1)).write .object sampleCopy).1.isOk ≠ true ∧
      (start.performAll sampleCalls).write .object sampleCopy =
        (.error (.notFound ("Tenant ns/t")), start.performAll sampleCalls) := by
  intro start
  have hforeign : ∀ call ∈ sampleCalls, ¬call.Inserts sampleHeld.key := by
    simp [sampleCalls, Call.Inserts]
  have hone := serialized_of_live {} sampleHeld rfl (sampleCalls.take 1) fun call hcall =>
    hforeign call (List.mem_of_mem_take hcall)
  have hall := serialized_of_live {} sampleHeld rfl sampleCalls hforeign
  constructor
  · rw [Ne, hone.succeeds_iff [] _ sampleCopy .object sampleCopy rfl (by decide +kernel) rfl rfl]
    decide +kernel
  · exact (hall.absent sampleCalls [] rfl (by decide +kernel)).2 .object sampleCopy rfl

end ObjectStore

end ForgeSync
