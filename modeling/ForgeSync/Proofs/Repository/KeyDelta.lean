import ForgeSync.Convergence.KeyDelta

/-!
# The least change between two tables

A change takes names from a table and then puts entries in. Many changes make the same table of
another one: an entry that is there already may be put in again, and a name that is not there may
be taken away. The difference of two tables of keys is the change that does nothing of the kind.

Main statements: `changed_eq_iff`, which says what every change from one table to another has to
do, and `KeyDelta.between_least`.
-/

namespace ForgeSync

/-! ## Changes to a table -/

section Changes

variable {α : Type} {names : List String} {added before after : Table α}

/-- The table after the names were taken from it and the entries were put in. -/
def changed (names : List String) (added table : Table α) : Table α :=
  names.foldl Std.ExtTreeMap.erase table ∪ added

theorem getElem?_foldl_erase (names : List String) (table : Table α) (key : String) :
    (names.foldl Std.ExtTreeMap.erase table)[key]? =
      if key ∈ names then none else table[key]? := by
  induction names generalizing table with
  | nil => rfl
  | cons first rest ih =>
      rw [List.foldl_cons, ih, Std.ExtTreeMap.getElem?_erase]
      by_cases hrest : key ∈ rest
      · simp [hrest]
      · by_cases hfirst : first = key
        · simp [hfirst]
        · simp [hrest, hfirst, Ne.symm hfirst]

/-- What was put in counts, whatever was taken away or was there before. -/
theorem getElem?_changed (names : List String) (added table : Table α) (key : String) :
    (changed names added table)[key]? =
      added[key]?.or (if key ∈ names then none else table[key]?) := by
  rw [changed, Std.ExtTreeMap.getElem?_union, getElem?_foldl_erase]

/-- A change makes one table of another exactly if it puts in nothing but entries of that table,
takes away every name that must not be left, and puts in each entry that was not there or was
taken away. -/
theorem changed_eq_iff :
    changed names added before = after ↔
      (∀ (key : String) (value : α), added[key]? = some value → after[key]? = some value) ∧
      (∀ key ∈ before, key ∉ after → key ∈ names) ∧
      ∀ (key : String) (value : α), after[key]? = some value →
        before[key]? ≠ some value ∨ key ∈ names → added[key]? = some value := by
  have hkey : ∀ key : String,
      added[key]?.or (if key ∈ names then none else before[key]?) = after[key]? ↔
      (∀ value, added[key]? = some value → after[key]? = some value) ∧
      (key ∈ before → key ∉ after → key ∈ names) ∧
      ∀ value, after[key]? = some value → before[key]? ≠ some value ∨ key ∈ names →
        added[key]? = some value := fun key => by
    rw [Std.ExtTreeMap.mem_iff_isSome_getElem?, Std.ExtTreeMap.mem_iff_isSome_getElem?]
    cases added[key]? with
    | some entry =>
        -- what is put in decides, so that it has to be the entry
        rw [Option.some_or]
        constructor
        · intro hentry
          simp [← hentry]
        · intro hcase
          exact (hcase.1 entry rfl).symm
    | none =>
        -- what is left has to be as it was
        rw [Option.none_or]
        by_cases hnamed : key ∈ names <;> cases before[key]? <;> cases after[key]? <;>
          simp [hnamed]
  rw [Std.ExtTreeMap.ext_getElem?_iff]
  simp only [getElem?_changed, hkey, forall_and]

end Changes

/-! ## The difference of two tables of keys -/

namespace KeyDelta

variable {localKeys remoteKeys : Table DeployKey} {name : String} {key : DeployKey}

theorem mem_remove_between :
    name ∈ (between localKeys remoteKeys).remove ↔ name ∉ localKeys ∧ name ∈ remoteKeys := by
  rw [between, Std.ExtTreeMap.mem_iff_isSome_getElem?, Std.ExtTreeMap.getElem?_filter',
    getElem?_changedEntries, Std.ExtTreeMap.mem_iff_isSome_getElem?,
    Std.ExtTreeMap.mem_iff_isSome_getElem?, Std.ExtTreeMap.contains_eq_isSome_getElem?]
  cases localKeys[name]? <;> cases remoteKeys[name]? <;> simp

theorem getElem?_add_between :
    (between localKeys remoteKeys).add[name]? = some key ↔
      localKeys[name]? = some key ∧ remoteKeys[name]? ≠ some key := by
  rw [between, getElem?_changedEntries]
  grind

/-- The difference makes the remote table the local one. -/
theorem changed_between (localKeys remoteKeys : Table DeployKey) :
    changed (between localKeys remoteKeys).remove.keys (between localKeys remoteKeys).add
      remoteKeys = localKeys := by
  refine changed_eq_iff.2 ⟨fun name key hadd => ?_, fun name hremote hlocal => ?_,
    fun name key hlocal hneeded => ?_⟩
  · exact (getElem?_add_between.1 hadd).1
  · exact Std.ExtTreeMap.mem_keys.2 (mem_remove_between.2 ⟨hlocal, hremote⟩)
  · obtain hother | hremoved := hneeded
    · exact getElem?_add_between.2 ⟨hlocal, hother⟩
    · -- a name that is taken away is not wanted
      obtain ⟨hnot, -⟩ := mem_remove_between.1 (Std.ExtTreeMap.mem_keys.1 hremoved)
      rw [Std.ExtTreeMap.getElem?_eq_none hnot] at hlocal
      cases hlocal

theorem not_mem_add_of_mem_remove (h : name ∈ (between localKeys remoteKeys).remove) :
    name ∉ (between localKeys remoteKeys).add := by
  intro hadd
  obtain ⟨key, hkey⟩ := Option.isSome_iff_exists.1 (Std.ExtTreeMap.mem_iff_isSome_getElem?.1 hadd)
  refine (mem_remove_between.1 h).1 (Std.ExtTreeMap.mem_iff_isSome_getElem?.2 ?_)
  rw [(getElem?_add_between.1 hkey).1]
  rfl

/-- Every change that makes the remote table the local one does all that the difference does. -/
theorem between_le {names : List String} {added : Table DeployKey}
    (h : changed names added remoteKeys = localKeys) :
    (∀ name ∈ (between localKeys remoteKeys).remove, name ∈ names) ∧
      ∀ (name : String) (key : DeployKey),
        (between localKeys remoteKeys).add[name]? = some key → added[name]? = some key := by
  obtain ⟨-, hremoved, hadded⟩ := changed_eq_iff.1 h
  refine ⟨fun name hname => ?_, fun name key hkey => ?_⟩
  · obtain ⟨hlocal, hremote⟩ := mem_remove_between.1 hname
    exact hremoved name hremote hlocal
  · obtain ⟨hlocal, hremote⟩ := getElem?_add_between.1 hkey
    exact hadded name key hlocal (.inl hremote)

theorem changed_nothing (table : Table DeployKey) : changed [] ∅ table = table :=
  changed_eq_iff.2 ⟨by simp, fun _ hmem hnot => absurd hmem hnot, by simp⟩

theorem isEmpty_between :
    (between localKeys remoteKeys).isEmpty = true ↔ localKeys = remoteKeys := by
  rw [isEmpty, Bool.and_eq_true, Std.ExtTreeMap.isEmpty_iff, Std.ExtTreeMap.isEmpty_iff]
  constructor
  · intro hempty
    obtain ⟨hadd, hremove⟩ := hempty
    have hnames : (between localKeys remoteKeys).remove.keys = [] := by
      rw [hremove]
      rfl
    have hchanged := changed_between localKeys remoteKeys
    rw [hnames, hadd, changed_nothing] at hchanged
    exact hchanged.symm
  · intro hsame
    subst hsame
    -- nothing has to be done, and the difference does no more than that
    obtain ⟨hremove, hadd⟩ := between_le (changed_nothing localKeys)
    constructor
    · apply Std.ExtTreeMap.ext_getElem?
      intro name
      cases hkey : (between localKeys localKeys).add[name]? with
      | none => simp
      | some key => exact (hadd name key hkey).symm
    · rw [Std.ExtTreeMap.eq_empty_iff_forall_not_mem]
      intro name hname
      cases hremove name hname

/-- The difference of two tables of keys makes the remote one the local one, has no name on both
sides, and does nothing that another change to the same end could leave out. So it is empty exactly
if the tables are equal. -/
theorem between_least (localKeys remoteKeys : Table DeployKey) :
    changed (between localKeys remoteKeys).remove.keys (between localKeys remoteKeys).add
        remoteKeys = localKeys ∧
      (∀ name ∈ (between localKeys remoteKeys).remove,
        name ∉ (between localKeys remoteKeys).add) ∧
      (∀ (names : List String) (added : Table DeployKey),
        changed names added remoteKeys = localKeys →
          (∀ name ∈ (between localKeys remoteKeys).remove, name ∈ names) ∧
          ∀ (name : String) (key : DeployKey),
            (between localKeys remoteKeys).add[name]? = some key → added[name]? = some key) ∧
      ((between localKeys remoteKeys).isEmpty = true ↔ localKeys = remoteKeys) :=
  ⟨changed_between localKeys remoteKeys, fun _ hname => not_mem_add_of_mem_remove hname,
    fun _ _ hchanged => between_le hchanged, isEmpty_between⟩

/-- Of one key that differs, one that is missing and one that nobody wants, a change that takes all
names away and puts all keys in does more than the difference. -/
theorem between_least_replacingAll :
    let old : DeployKey := ⟨"ssh-rsa", "AAAA", false⟩
    let new : DeployKey := ⟨"ssh-rsa", "BBBB", false⟩
    let wanted : Table DeployKey := .ofList [("ci", new), ("cd", new), ("ops", old)]
    let there : Table DeployKey := .ofList [("ci", old), ("ops", old), ("test", old)]
    changed ["ci", "ops", "test"] wanted there = wanted ∧
      (∀ name ∈ (between wanted there).remove, name ∈ ["ci", "ops", "test"]) ∧
      (∀ (name : String) (key : DeployKey),
        (between wanted there).add[name]? = some key → wanted[name]? = some key) ∧
      (between wanted there).remove.keys = ["test"] ∧
      (between wanted there).add.keys = ["cd", "ci"] := by
  intro old new wanted there
  have hchanged : changed ["ci", "ops", "test"] wanted there = wanted := by decide +kernel
  obtain ⟨-, -, hleast, -⟩ := between_least wanted there
  exact ⟨hchanged, (hleast _ _ hchanged).1, (hleast _ _ hchanged).2, by decide +kernel,
    by decide +kernel⟩

end KeyDelta

end ForgeSync
