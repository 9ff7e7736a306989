import ForgeSync.Convergence.Variables
import ForgeSync.Proofs.Memory.Calls
import ForgeSync.Proofs.Repository.KeyDelta

/-!
# Settled CI variables

Every managed name ends as it is wanted, whatever was there, and every other name stays as it was.
So a settlement that was cut short does no harm: what it leaves is settled in the same way.

Main statements: `getElem?_settled` and `settled_congr`.
-/

namespace ForgeSync.Forge.Memory

variable {managed : List String} {wanted : List CiVariable} {a b c : Table CiVariable}
  {key : String}

/-! ## Tables after a settlement -/

/-- Two tables that may differ at some names only. -/
def AgreeOff (names : List String) (a b : Table CiVariable) : Prop :=
  ∀ key, key ∉ names → a[key]? = b[key]?

theorem AgreeOff.refl (names : List String) (a : Table CiVariable) : AgreeOff names a a :=
  fun _ _ => rfl

theorem AgreeOff.trans (h : AgreeOff managed a b) (h' : AgreeOff managed b c) :
    AgreeOff managed a c :=
  fun key hkey => (h key hkey).trans (h' key hkey)

def eraseName (vars : Table CiVariable) (name : String) : Table CiVariable :=
  vars.erase name

def writeEntry (vars : Table CiVariable) (v : CiVariable) : Table CiVariable :=
  vars.insert v.key v

/-- The variables once every managed name is as it is wanted. -/
def settled (managed : List String) (wanted : List CiVariable) (vars : Table CiVariable) :
    Table CiVariable :=
  (managedWanted managed wanted).foldl writeEntry
    ((surplusNames managed wanted).foldl eraseName vars)

theorem agreeOff_eraseName {name : String} (h : name ∈ managed) :
    AgreeOff managed (eraseName a name) a := by
  intro key hkey
  have hne : name ≠ key := fun hsame => hkey (hsame ▸ h)
  simp [eraseName, Std.ExtTreeMap.getElem?_erase, hne]

theorem eraseName_of_not_mem {name : String} (h : name ∉ a) : eraseName a name = a := by
  apply Std.ExtTreeMap.ext_getElem?
  intro key
  by_cases hkey : name = key
  · subst hkey
    simp [eraseName, Std.ExtTreeMap.getElem?_eq_none h]
  · simp [eraseName, Std.ExtTreeMap.getElem?_erase, hkey]

theorem agreeOff_writeEntry {v : CiVariable} (h : v.key ∈ managed) :
    AgreeOff managed (writeEntry a v) a := by
  intro key hkey
  have hne : v.key ≠ key := fun hsame => hkey (hsame ▸ h)
  simp [writeEntry, Std.ExtTreeMap.getElem?_insert, hne]

theorem size_eraseName (vars : Table CiVariable) (name : String) :
    (eraseName vars name).size + (if vars[name]?.isSome then 1 else 0) = vars.size := by
  rw [eraseName, Std.ExtTreeMap.size_erase, Std.ExtTreeMap.isSome_getElem?_eq_contains]
  by_cases hmem : name ∈ vars
  · have hpos : 0 < vars.size := by
      rw [← Std.ExtTreeMap.length_keys]
      exact List.length_pos_of_mem (Std.ExtTreeMap.mem_keys.2 hmem)
    rw [Std.ExtTreeMap.contains_iff_mem.2 hmem, if_pos rfl, if_pos rfl]
    omega
  · rw [Bool.eq_false_iff.2 (mt Std.ExtTreeMap.contains_iff_mem.1 hmem)]
    rfl

theorem size_writeEntry (vars : Table CiVariable) (v : CiVariable) :
    (writeEntry vars v).size = vars.size + if vars[v.key]?.isSome then 0 else 1 := by
  rw [writeEntry, Std.ExtTreeMap.size_insert, Std.ExtTreeMap.isSome_getElem?_eq_contains]
  split <;> rfl

theorem filter_key_eq_nil_iff : wanted.filter (·.key = key) = [] ↔ key ∉ wanted.map (·.key) := by
  simp

theorem mem_surplusNames {name : String} :
    name ∈ surplusNames managed wanted ↔ name ∈ managed ∧ name ∉ wanted.map (·.key) := by
  simp [surplusNames, nameDifference]

theorem mem_managedWanted {v : CiVariable} :
    v ∈ managedWanted managed wanted ↔ v ∈ wanted ∧ v.key ∈ managed := by
  simp [managedWanted]

theorem getElem?_foldl_eraseName (names : List String) (a : Table CiVariable) (key : String) :
    (names.foldl eraseName a)[key]? = if key ∈ names then none else a[key]? :=
  getElem?_foldl_erase names a key

/-- Of several entries of one name the last one is there in the end. -/
theorem getElem?_foldl_writeEntry (items : List CiVariable) (a : Table CiVariable) (key : String) :
    (items.foldl writeEntry a)[key]? = (items.reverse.find? (·.key = key)).or a[key]? := by
  induction items generalizing a with
  | nil => rfl
  | cons first rest ih =>
      rw [List.foldl_cons, ih, List.reverse_cons, List.find?_append, Option.or_assoc]
      congr 1
      by_cases hfirst : first.key = key <;>
        simp [writeEntry, Std.ExtTreeMap.getElem?_insert, hfirst]

theorem find?_reverse_eq_none {items : List CiVariable} :
    items.reverse.find? (·.key = key) = none ↔ key ∉ items.map (·.key) := by
  simp [List.find?_eq_none]

/-- Of a managed name the last entry is there, and what is not managed stays. -/
theorem getElem?_settled (managed : List String) (wanted : List CiVariable)
    (vars : Table CiVariable) (key : String) :
    (settled managed wanted vars)[key]? =
      if key ∈ managed then wanted.reverse.find? (·.key = key) else vars[key]? := by
  rw [settled, getElem?_foldl_writeEntry, getElem?_foldl_eraseName]
  by_cases hmanaged : key ∈ managed
  · have hsame : (managedWanted managed wanted).reverse.find? (·.key = key) =
        wanted.reverse.find? (·.key = key) := by
      rw [managedWanted, ← List.filter_reverse, List.find?_filter]
      congr 1
      funext v
      by_cases hkey : v.key = key <;> simp [hkey, hmanaged]
    rw [hsame, if_pos hmanaged]
    cases hlast : wanted.reverse.find? (·.key = key) with
    | some v => rfl
    | none =>
        rw [if_pos (mem_surplusNames.2 ⟨hmanaged, find?_reverse_eq_none.1 hlast⟩)]
        rfl
  · have hunwritten : key ∉ (managedWanted managed wanted).map (·.key) := by
      rw [List.mem_map]
      intro hmem
      obtain ⟨v, hv, rfl⟩ := hmem
      exact hmanaged (mem_managedWanted.1 hv).2
    rw [find?_reverse_eq_none.2 hunwritten, if_neg fun hsurplus =>
      hmanaged (mem_surplusNames.1 hsurplus).1, if_neg hmanaged, Option.none_or]

theorem agreeOff_settled (managed : List String) (wanted : List CiVariable)
    (a : Table CiVariable) : AgreeOff managed (settled managed wanted a) a :=
  fun key hkey => by rw [getElem?_settled, if_neg hkey]

/-- Of what is managed the old values do not matter. -/
theorem settled_congr (h : AgreeOff managed a b) :
    settled managed wanted a = settled managed wanted b := by
  apply Std.ExtTreeMap.ext_getElem?
  intro key
  rw [getElem?_settled, getElem?_settled]
  split
  · rfl
  · exact h key ‹_›

end ForgeSync.Forge.Memory
