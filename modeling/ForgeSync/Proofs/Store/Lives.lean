import ForgeSync.Proofs.Store.Calls

/-!
# Objects that come back

An object that was dropped can be inserted again, and its versions then begin anew: the store keeps
nothing of the one before. So the version of an object counts the changes of its present life alone,
and a copy that was read in an earlier life passes for a current one when the two lives have seen
equally many changes.

Main statements: `version_performAll` says what the versions of any run count, and
`write_of_earlier_life` when a copy from an earlier life is written.
-/

namespace ForgeSync

namespace ObjectStore

variable {store start : ObjectStore} {key : String} {stored : Owner}

/-! ## Ages -/

/-- The version of the object under a key, and zero if there is none. -/
def version (store : ObjectStore) (key : String) : Nat :=
  (store.objects[key]?.map (·.metadata.resourceVersion)).getD 0

/-- How many changes the object under a key has seen after one call more. A call that leaves no
object ends the count, and the next one begins at its insertion. -/
def ageAfter (key : String) (store : ObjectStore) (age : Nat) (call : Call) : Nat :=
  if (store.perform call).objects[key]?.isSome then age + (store.isChange key call).toNat else 0

/-- How many changes the object under a key has seen in its present life after a run of calls, if
it had seen so many before. -/
def ageFrom (key : String) (store : ObjectStore) (age : Nat) : List Call → Nat
  | [] => age
  | call :: rest => ageFrom key (store.perform call) (store.ageAfter key age call) rest

/-- How many changes the object under a key has seen in its present life after a run of calls on a
store that did not have it. -/
def age (key : String) (store : ObjectStore) (calls : List Call) : Nat :=
  ageFrom key store 0 calls

theorem version_of_stored (h : store.objects[key]? = some stored) :
    store.version key = stored.metadata.resourceVersion := by
  simp [version, h]

theorem version_of_absent (h : store.objects[key]? = none) : store.version key = 0 := by
  simp [version, h]

/-! ## One call -/

section Steps

variable {call : Call}

/-- What a call leaves of an object, if it leaves any, is what it made of it. -/
theorem eq_of_getElem?_perform {later : Owner} (hforeign : ¬call.Inserts key)
    (hslot : store.objects[key]? = some stored)
    (hlater : (store.perform call).objects[key]? = some later) :
    store.nextOf key stored call = later := by
  rw [getElem?_perform hforeign hslot] at hlater
  split at hlater
  · exact (kept_eq_some hlater).1
  · exact Option.some.inj hlater

/-- One call makes of the version what it makes of the age. -/
theorem version_perform (store : ObjectStore) (key : String) (call : Call) :
    (store.perform call).version key = store.ageAfter key (store.version key) call := by
  by_cases hinserts : call.Inserts key
  · cases call with
    | insert o =>
      obtain rfl : o.key = key := hinserts
      simp [ageAfter, isChange, version, perform, insert, Owner.withVersion, Owner.mapMeta]
    | get space name => cases hinserts
    | write part copy => cases hinserts
    | requestDeletion now space name => cases hinserts
  · cases hlater : (store.perform call).objects[key]? with
    | none => simp [ageAfter, version_of_absent hlater, hlater]
    | some later =>
      cases hslot : store.objects[key]? with
      | none =>
        rw [getElem?_perform_of_absent hinserts hslot] at hlater
        cases hlater
      | some stored =>
        obtain rfl := eq_of_getElem?_perform hinserts hslot hlater
        rw [version_of_stored hlater, version_of_stored hslot, ageAfter, hlater, nextOf]
        cases hchange : store.isChange key call with
        | false => simp
        | true => simp [resourceVersion_revise hinserts hslot hchange]

end Steps

/-! ## Runs -/

theorem version_performAll_eq_ageFrom (store : ObjectStore) (key : String) (calls : List Call) :
    (store.performAll calls).version key = ageFrom key store (store.version key) calls := by
  induction calls generalizing store with
  | nil => rfl
  | cons call rest ih =>
    rw [ageFrom, ← version_perform, ← ih]
    rfl

/-- The version of an object counts the changes of its present life. -/
theorem version_performAll (habsent : start.objects[key]? = none) (calls : List Call) :
    (start.performAll calls).version key = age key start calls := by
  rw [version_performAll_eq_ageFrom, version_of_absent habsent, age]

/-! ## Copies of earlier lives -/

/-- A copy of an object that was dropped can be written on the next object under its key exactly if
that one has seen as many changes since its insertion as the earlier one when the copy was read;
otherwise the write is refused as a conflict. -/
theorem write_of_earlier_life (earlier dropping later : List Call) {seen copy : Owner}
    (habsent : start.objects[key]? = none)
    (hseen : (start.performAll earlier).objects[key]? = some seen)
    (hdropped : (start.performAll (earlier ++ dropping)).objects[key]? = none)
    (hstored : (start.performAll (earlier ++ dropping ++ later)).objects[key]? = some stored)
    (hkey : copy.key = key)
    (hversion : copy.metadata.resourceVersion = seen.metadata.resourceVersion) (part : Part) :
    let present := start.performAll (earlier ++ dropping ++ later)
    let seenAge := age key start earlier
    let presentAge := age key (start.performAll (earlier ++ dropping)) later
    (seenAge = presentAge → (present.write part copy).1 = .ok (revised part stored copy)) ∧
      (seenAge ≠ presentAge →
        present.write part copy = (.error (.conflict copy.kind.name key), present)) := by
  intro present seenAge presentAge
  subst hkey
  have hseenAge : copy.metadata.resourceVersion = seenAge := by
    rw [hversion, ← version_of_stored hseen, version_performAll habsent]
  -- the drop has left nothing that the versions of the next object could go on from
  have hpresentAge : stored.metadata.resourceVersion = presentAge := by
    rw [← version_of_stored hstored, performAll_append, version_performAll hdropped]
  constructor
  · intro hsame
    have hcurrent := current_ok_iff.2 ⟨hstored, by rw [hseenAge, hpresentAge, hsame]⟩
    exact write_of_current hcurrent
  · intro hother
    have hstale : stored.metadata.resourceVersion ≠ copy.metadata.resourceVersion := by
      rw [hseenAge, hpresentAge]
      exact hother.symm
    exact write_of_refused (current_of_stale hstored hstale)

/-- A tenant that no finalizer holds. -/
def formerTenant : Owner where
  metadata := { name := "t", space := "ns" }

/-- Another tenant of the same name. -/
def laterTenant : Owner where
  metadata := { name := "t", space := "ns" }
  spec := { displayName := some "Later" }

/-- The tenant is stored, and its status written. -/
def formerLife : List Call :=
  [.insert formerTenant, .write .status (formerTenant.withVersion 1)]

/-- Its deletion is requested. -/
def formerEnd : List Call :=
  [.requestDeletion ⟨0, 0⟩ "ns" "t"]

/-- The other tenant is stored, and its status written. -/
def laterLife : List Call :=
  [.insert laterTenant, .write .status (laterTenant.withVersion 1)]

/-- The last copy of the first tenant is refused when the other one was just stored, and written
once the status of that one was. -/
theorem write_of_earlier_life_laterLife :
    let stored := ({} : ObjectStore).performAll (formerLife ++ formerEnd ++ laterLife.take 1)
    let written := ({} : ObjectStore).performAll (formerLife ++ formerEnd ++ laterLife)
    let copy := formerTenant.withVersion 2
    stored.write .object copy = (.error (.conflict "Tenant" "ns/t"), stored) ∧
      (written.write .object copy).1 = .ok (formerTenant.withVersion 3) := by
  intro stored written copy
  have habsent : ({} : ObjectStore).objects["ns/t"]? = none := by decide +kernel
  have hseen : (({} : ObjectStore).performAll formerLife).objects["ns/t"]? = some copy := by
    decide +kernel
  have hdropped : (({} : ObjectStore).performAll (formerLife ++ formerEnd)).objects["ns/t"]? =
      none := by decide +kernel
  have hstored : stored.objects["ns/t"]? = some (laterTenant.withVersion 1) := by decide +kernel
  have hwritten : written.objects["ns/t"]? = some (laterTenant.withVersion 2) := by decide +kernel
  have hfirst := write_of_earlier_life formerLife formerEnd (laterLife.take 1) habsent hseen
    hdropped hstored rfl rfl .object
  have hsecond := write_of_earlier_life formerLife formerEnd laterLife habsent hseen hdropped
    hwritten rfl rfl .object
  exact ⟨hfirst.2 (by decide +kernel), hsecond.1 (by decide +kernel)⟩

/-- A copy of a tenant that was dropped overwrites the next one of its name. -/
theorem overwritten_by_earlier_life :
    ¬∀ (earlier dropping later : List Call) (key : String) (seen stored copy : Owner) (part : Part),
      (({} : ObjectStore).performAll earlier).objects[key]? = some seen →
      (({} : ObjectStore).performAll (earlier ++ dropping)).objects[key]? = none →
      (({} : ObjectStore).performAll (earlier ++ dropping ++ later)).objects[key]? = some stored →
      copy.key = key → copy.metadata.resourceVersion = seen.metadata.resourceVersion →
        ((({} : ObjectStore).performAll (earlier ++ dropping ++ later)).write part copy).1.isOk ≠
          true := by
  intro hnever
  exact hnever [.insert formerTenant] [.requestDeletion ⟨0, 0⟩ "ns" "t"] [.insert laterTenant]
    "ns/t" (formerTenant.withVersion 1) (laterTenant.withVersion 1) (formerTenant.withVersion 1)
    .object (by decide +kernel) (by decide +kernel) (by decide +kernel) rfl rfl (by decide +kernel)

end ObjectStore

end ForgeSync
