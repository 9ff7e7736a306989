import ForgeSync.Registry
import Mathlib.Data.List.Dedup

/-!
# What registrations leave

A registration takes the place of every earlier one of its kind, and goes to the end. So a sequence
of registrations leaves, in their order, the factories that no later one of their kind replaces, and
a search among these comes to the one whose last registration is the earliest.

Main statements: `factories_ofList` says which factories are left, `find?_standing_eq_some_iff`
which of them a search comes to, and `resolution_ofList` what is answered for a repository type and
an endpoint.
-/

namespace ForgeSync.Registry

variable {σ : Type}

/-! ## Registrations that stand -/

/-- A factory was registered at a place of a sequence, and none of its kind after it. -/
structure Stands (factories : List (Factory σ)) (place : Nat) (factory : Factory σ) : Prop where
  registered : factories[place]? = some factory
  unreplaced : ∀ later other, place < later → factories[later]? = some other →
    factory.providerType ≠ other.providerType

/-- The factories of a sequence that no later one of their kind replaces. -/
def standing (factories : List (Factory σ)) : List (Factory σ) :=
  factories.pwFilter fun factory later => factory.providerType ≠ later.providerType

section Sequences

variable {first factory other : Factory σ} {rest factories : List (Factory σ)} {place : Nat}

theorem not_stands_nil : ¬Stands [] place factory := fun h => by simpa using h.registered

/-- The first factory of a sequence stands unless one of its kind follows. -/
theorem stands_zero_iff :
    Stands (first :: rest) 0 factory ↔
      first = factory ∧ ∀ other ∈ rest, first.providerType ≠ other.providerType := by
  constructor
  · intro h
    obtain rfl : first = factory := by simpa using h.registered
    refine ⟨rfl, fun other hother => ?_⟩
    obtain ⟨place, hplace⟩ := List.mem_iff_getElem?.1 hother
    exact h.unreplaced (place + 1) other (by omega) (by simpa using hplace)
  · rintro ⟨rfl, hkinds⟩
    refine ⟨rfl, fun later other hlater hslot => ?_⟩
    obtain ⟨later, rfl⟩ : ∃ n, later = n + 1 := ⟨later - 1, by omega⟩
    exact hkinds other (List.mem_of_getElem? (by simpa using hslot))

/-- What stands in a sequence does not depend on what comes before it. -/
theorem stands_succ_iff :
    Stands (first :: rest) (place + 1) factory ↔ Stands rest place factory := by
  constructor
  · intro h
    refine ⟨by simpa using h.registered, fun later other hlater hslot => ?_⟩
    exact h.unreplaced (later + 1) other (by omega) (by simpa using hslot)
  · intro h
    refine ⟨by simpa using h.registered, fun later other hlater hslot => ?_⟩
    obtain ⟨later, rfl⟩ : ∃ n, later = n + 1 := ⟨later - 1, by omega⟩
    exact h.unreplaced later other (by omega) (by simpa using hslot)

/-- Of one kind at most one factory stands. -/
theorem Stands.place_eq {place' : Nat} (h : Stands factories place factory)
    (hother : Stands factories place' other)
    (hkind : factory.providerType = other.providerType) : place = place' := by
  rcases Nat.lt_trichotomy place place' with hlt | heq | hgt
  · exact absurd hkind (h.unreplaced place' other hlt hother.registered)
  · exact heq
  · exact absurd hkind.symm (hother.unreplaced place factory hgt h.registered)

theorem forall_mem_standing_iff :
    (∀ other ∈ standing rest, first.providerType ≠ other.providerType) ↔
      Stands (first :: rest) 0 first := by
  rw [stands_zero_iff, and_iff_right rfl]
  exact List.forall_mem_pwFilter (R := fun f g : Factory σ => f.providerType ≠ g.providerType)
    (by grind) first rest

theorem standing_cons_of_stands (h : Stands (first :: rest) 0 first) :
    standing (first :: rest) = first :: standing rest :=
  List.pwFilter_cons_of_pos (forall_mem_standing_iff.2 h)

theorem standing_cons_of_not (h : ¬Stands (first :: rest) 0 first) :
    standing (first :: rest) = standing rest :=
  List.pwFilter_cons_of_neg (mt forall_mem_standing_iff.1 h)

theorem mem_standing_iff :
    factory ∈ standing factories ↔ ∃ place, Stands factories place factory := by
  induction factories with
  | nil => simp [standing, not_stands_nil]
  | cons first rest ih =>
    rw [← Nat.or_exists_add_one]
    simp only [stands_succ_iff, ← ih]
    by_cases hstands : Stands (first :: rest) 0 first
    · have hzero : Stands (first :: rest) 0 factory ↔ factory = first := by
        constructor
        · exact fun h => (stands_zero_iff.1 h).1.symm
        · rintro rfl
          exact hstands
      rw [standing_cons_of_stands hstands, List.mem_cons, hzero]
    · have hzero : ¬Stands (first :: rest) 0 factory := by
        intro h
        obtain rfl := (stands_zero_iff.1 h).1
        exact hstands h
      rw [standing_cons_of_not hstands, or_iff_right hzero]

end Sequences

/-! ## Searches -/

/-- Of the standing factories that meet a condition, the one at the earliest place. -/
def StandsFirst (meets : Factory σ → Bool) (factories : List (Factory σ)) (factory : Factory σ) :
    Prop :=
  ∃ place, Stands factories place factory ∧ meets factory = true ∧
    ∀ earlier other, earlier < place → Stands factories earlier other → meets other = false

section Searches

variable {meets : Factory σ → Bool} {first factory : Factory σ} {rest factories : List (Factory σ)}

theorem standsFirst_cons_of_stands (hstands : Stands (first :: rest) 0 first)
    (hmeets : meets first = true) :
    StandsFirst meets (first :: rest) factory ↔ first = factory := by
  constructor
  · rintro ⟨place, hplace, -, hearliest⟩
    cases place with
    | zero => exact (stands_zero_iff.1 hplace).1
    | succ place =>
      have hnot := hearliest 0 first (by omega) hstands
      rw [hmeets] at hnot
      cases hnot
  · rintro rfl
    exact ⟨0, hstands, hmeets, by omega⟩

theorem standsFirst_cons_of_not (h : Stands (first :: rest) 0 first → meets first = false) :
    StandsFirst meets (first :: rest) factory ↔ StandsFirst meets rest factory := by
  constructor
  · rintro ⟨place, hplace, hmeets, hearliest⟩
    cases place with
    | zero =>
      obtain rfl := (stands_zero_iff.1 hplace).1
      rw [h hplace] at hmeets
      cases hmeets
    | succ place =>
      refine ⟨place, stands_succ_iff.1 hplace, hmeets, fun earlier other hlt hother => ?_⟩
      exact hearliest (earlier + 1) other (by omega) (stands_succ_iff.2 hother)
  · rintro ⟨place, hplace, hmeets, hearliest⟩
    refine ⟨place + 1, stands_succ_iff.2 hplace, hmeets, fun earlier other hlt hother => ?_⟩
    cases earlier with
    | zero =>
      obtain rfl := (stands_zero_iff.1 hother).1
      exact h hother
    | succ earlier => exact hearliest earlier other (by omega) (stands_succ_iff.1 hother)

/-- A search among the factories that stand comes to the one at the earliest place. -/
theorem find?_standing_eq_some_iff :
    (standing factories).find? meets = some factory ↔ StandsFirst meets factories factory := by
  induction factories with
  | nil => simp [standing, StandsFirst, not_stands_nil]
  | cons first rest ih =>
    by_cases hstands : Stands (first :: rest) 0 first
    · rw [standing_cons_of_stands hstands]
      cases hmeets : meets first with
      | true => simp [standsFirst_cons_of_stands hstands hmeets, hmeets]
      | false => simp [standsFirst_cons_of_not fun _ => hmeets, hmeets, ih]
    · rw [standing_cons_of_not hstands, standsFirst_cons_of_not fun h => absurd h hstands, ih]

theorem find?_standing_eq_none_iff (meets : Factory σ → Bool) :
    (standing factories).find? meets = none ↔
      ∀ place factory, Stands factories place factory → meets factory = false := by
  simp only [List.find?_eq_none, mem_standing_iff, Bool.not_eq_true]
  grind

/-- Of one kind there is no second factory that could come first. -/
theorem standsFirst_kind_iff {kind : String} :
    StandsFirst (·.providerType = kind) factories factory ↔
      ∃ place, Stands factories place factory ∧ factory.providerType = kind := by
  constructor
  · rintro ⟨place, hplace, hkind, -⟩
    exact ⟨place, hplace, of_decide_eq_true hkind⟩
  · rintro ⟨place, hplace, rfl⟩
    refine ⟨place, hplace, decide_eq_true rfl, fun earlier other hlt hother => ?_⟩
    refine decide_eq_false fun hkind => ?_
    have hsame : earlier = place := hother.place_eq hplace hkind
    omega

end Searches

/-! ## Registries -/

/-- What a sequence of registrations leaves of an earlier registry, and what of itself. -/
theorem factories_foldl_register (registry : Registry σ) (factories : List (Factory σ)) :
    (factories.foldl register registry).factories =
      (registry.factories.filter fun factory =>
        ∀ other ∈ factories, factory.providerType ≠ other.providerType) ++ standing factories := by
  induction factories generalizing registry with
  | nil => simp [standing]
  | cons first rest ih =>
    have hearlier : registry.factories.filter (fun factory =>
          (∀ other ∈ rest, factory.providerType ≠ other.providerType) &&
            factory.providerType ≠ first.providerType) =
        registry.factories.filter (fun factory =>
          ∀ other ∈ first :: rest, factory.providerType ≠ other.providerType) := by
      refine List.filter_congr fun factory _ => ?_
      rw [Bool.eq_iff_iff]
      simp [and_comm]
    rw [List.foldl_cons, ih, register, List.filter_append, List.filter_filter, hearlier,
      List.append_assoc]
    congr 1
    by_cases hstands : Stands (first :: rest) 0 first
    · have hkinds := (stands_zero_iff.1 hstands).2
      rw [standing_cons_of_stands hstands, List.filter_cons_of_pos (by simpa using hkinds)]
      rfl
    · have hkinds := fun h => hstands (stands_zero_iff.2 ⟨rfl, h⟩)
      rw [standing_cons_of_not hstands, List.filter_cons_of_neg (by simpa using hkinds)]
      rfl

theorem factories_ofList (factories : List (Factory σ)) :
    (ofList factories).factories = standing factories := by
  simp [ofList, factories_foldl_register]

theorem providerTypes_ofList (factories : List (Factory σ)) :
    (ofList factories).providerTypes = (factories.map (·.providerType)).dedup := by
  rw [providerTypes, factories_ofList, List.dedup, List.pwFilter_map]
  rfl

/-- A kind is missing only if it was never registered. -/
theorem find?_kind_ofList_eq_none_iff {factories : List (Factory σ)} {kind : String} :
    (ofList factories).factories.find? (·.providerType = kind) = none ↔
      ∀ factory ∈ factories, factory.providerType ≠ kind := by
  have hnames : kind ∉ (ofList factories).providerTypes ↔
      ∀ factory ∈ factories, factory.providerType ≠ kind := by simp [providerTypes_ofList]
  rw [← hnames]
  simp [providerTypes]

/-! ## Answers -/

/-- What a registry has to answer after a sequence of registrations. -/
structure Resolves (factories : List (Factory σ)) (registry : Registry σ) : Prop where
  nodup : registry.providerTypes.Nodup
  /-- Of every kind the last registration counts. -/
  providerTypes : registry.providerTypes = (factories.map (·.providerType)).dedup
  /-- A name stands for the factory registered last under it, whatever the endpoint. -/
  named : ∀ repoType endpoint factory, repoType ≠ autoRepoType →
    (registry.resolve repoType endpoint = .ok factory ↔
      ∃ place, Stands factories place factory ∧ factory.providerType = repoType)
  unknown : ∀ repoType endpoint failure, repoType ≠ autoRepoType →
    (registry.resolve repoType endpoint = .error failure ↔
      (∀ factory ∈ factories, factory.providerType ≠ repoType) ∧
        failure = .configuration ("unknown repository type " ++ Text.quoted repoType ++
          " (known: " ++ ", ".intercalate registry.providerTypes ++ ")"))
  /-- Without a name the endpoint decides, and then the place of the last registration. -/
  recognised : ∀ endpoint factory,
    registry.resolve autoRepoType endpoint = .ok factory ↔
      StandsFirst (·.accepts endpoint) factories factory
  unrecognised : ∀ endpoint failure,
    registry.resolve autoRepoType endpoint = .error failure ↔
      (∀ place factory, Stands factories place factory → factory.accepts endpoint = false) ∧
        failure = .configuration ("no provider matches endpoint " ++ endpoint)

/-- Whatever is registered, a name stands for the factory registered last under it, and an endpoint
for the earliest of the last registrations that recognise it. -/
theorem resolution_ofList (factories : List (Factory σ)) :
    Resolves factories (ofList factories) where
  nodup := by
    rw [providerTypes_ofList]
    exact List.nodup_dedup _
  providerTypes := providerTypes_ofList factories
  named := by
    intro repoType endpoint factory hnamed
    rw [← standsFirst_kind_iff, ← find?_standing_eq_some_iff, ← factories_ofList, resolve,
      if_neg hnamed]
    cases (ofList factories).factories.find? (·.providerType = repoType) <;> simp
  unknown := by
    intro repoType endpoint failure hnamed
    rw [← find?_kind_ofList_eq_none_iff, resolve, if_neg hnamed]
    cases (ofList factories).factories.find? (·.providerType = repoType) <;> simp [eq_comm]
  recognised := by
    intro endpoint factory
    rw [← find?_standing_eq_some_iff, ← factories_ofList, resolve, if_pos rfl]
    cases (ofList factories).factories.find? (·.accepts endpoint) <;> simp
  unrecognised := by
    intro endpoint failure
    rw [← find?_standing_eq_none_iff (·.accepts endpoint), ← factories_ofList, resolve, if_pos rfl]
    cases (ofList factories).factories.find? (·.accepts endpoint) <;> simp [eq_comm]

end ForgeSync.Registry
