import ForgeSync.Pipeline.Convergence
import ForgeSync.Proofs.Memory.Commit
import ForgeSync.Proofs.Memory.Tokens
import ForgeSync.Proofs.Memory.Variables

/-!
# The aim of a pass

Where a pass takes a repository, as a function of the repository and of what the status remembers.
A pass that was cut short leaves the aim as it was, and one that was not has reached its aim: the
next one aims at what is there.

Main statements: `aim_congr`, `aim_committed` and `Rested.aim_eq`.
-/

namespace ForgeSync

open Calendar (Instant)
open Forge.Memory

/-! ## CI variables -/

/-- The trace of the variables that a descriptor wants. -/
def Descriptor.trace (repo : Descriptor) : AppliedVariables :=
  .ofDesired repo.ciVariables

/-- The names that are remembered. -/
def namesOf (applied : Option AppliedVariables) : List String :=
  applied.elim [] (·.names)

/-- What is remembered of the variables after a pass. -/
def appliedAim (repo : Descriptor) (previous : Option AppliedVariables) :
    Option AppliedVariables :=
  if previous = some repo.trace then previous
  else if repo.trace.names.isEmpty then none else some repo.trace

/-- The variables after a pass. -/
def variablesAim (repo : Descriptor) (previous : Option AppliedVariables)
    (vars : Table CiVariable) : Table CiVariable :=
  if previous = some repo.trace then vars
  else settled (managedNames previous repo.trace) repo.ciVariables vars

theorem Descriptor.mem_names_trace {repo : Descriptor} {key : String} :
    key ∈ repo.trace.names ↔ key ∈ repo.ciVariables.map (·.key) := by
  simp only [trace, AppliedVariables.ofDesired, AppliedVariables.sorted]
  exact ((List.mergeSort_perm _ _).map _).mem_iff

theorem mem_managedNames {previous : Option AppliedVariables} {next : AppliedVariables}
    {key : String} :
    key ∈ managedNames previous next ↔ key ∈ previous.elim [] (·.names) ∨ key ∈ next.names := by
  simp [managedNames, sortedNames]

theorem settled_nil (wanted : List CiVariable) (vars : Table CiVariable) :
    settled [] wanted vars = vars := by
  have hnone : managedWanted [] wanted = [] := by simp [managedWanted]
  simp [settled, surplusNames, nameDifference, hnone]

theorem managedNames_none {next : AppliedVariables} (h : next.names.isEmpty = true) :
    managedNames none next = [] := by
  rw [List.isEmpty_iff] at h
  simp [managedNames, sortedNames, h]

/-- After a pass the wanted variables are remembered, or none are wanted and none remembered. -/
theorem appliedAim_cases (repo : Descriptor) (previous : Option AppliedVariables) :
    appliedAim repo previous = some repo.trace ∨
      appliedAim repo previous = none ∧ repo.trace.names.isEmpty = true := by
  unfold appliedAim
  by_cases hsame : previous = some repo.trace
  · exact .inl (by rw [if_pos hsame, hsame])
  · cases hempty : repo.trace.names.isEmpty <;> simp [hsame]

theorem appliedAim_appliedAim (repo : Descriptor) (previous : Option AppliedVariables) :
    appliedAim repo (appliedAim repo previous) = appliedAim repo previous := by
  obtain hsame | ⟨hnone, hempty⟩ := appliedAim_cases repo previous
  · rw [hsame]
    exact if_pos rfl
  · rw [hnone]
    simp [appliedAim, hempty]

theorem variablesAim_appliedAim (repo : Descriptor) (previous : Option AppliedVariables)
    (vars : Table CiVariable) : variablesAim repo (appliedAim repo previous) vars = vars := by
  obtain hsame | ⟨hnone, hempty⟩ := appliedAim_cases repo previous
  · rw [hsame]
    exact if_pos rfl
  · rw [hnone, variablesAim, managedNames_none hempty, settled_nil, ite_self]

/-- A settlement that was cut short can be taken up again. -/
theorem variablesAim_congr {repo : Descriptor} {previous : Option AppliedVariables}
    {a b : Table CiVariable} (h : AgreeOff (managedNames previous repo.trace) a b)
    (hdiffers : previous ≠ some repo.trace) :
    variablesAim repo previous a = variablesAim repo previous b := by
  rw [variablesAim, variablesAim, if_neg hdiffers, if_neg hdiffers, settled_congr h]

theorem variablesAim_variablesAim (repo : Descriptor) (previous : Option AppliedVariables)
    (vars : Table CiVariable) :
    variablesAim repo previous (variablesAim repo previous vars) =
      variablesAim repo previous vars := by
  by_cases hsame : previous = some repo.trace
  · simp [variablesAim, hsame]
  · refine variablesAim_congr ?_ hsame
    rw [variablesAim, if_neg hsame]
    exact agreeOff_settled _ _ _

/-! ## Access tokens -/

/-- Whether a pass has to create an access token. -/
def NeedsToken (repo : Descriptor) (now : Instant) (hint : Option UInt64)
    (tokens : List AccessTokenRecord) : Prop :=
  repo.accessToken.isSome = true ∧ chosen now tokens hint = none

instance (repo : Descriptor) (now : Instant) (hint : Option UInt64)
    (tokens : List AccessTokenRecord) : Decidable (NeedsToken repo now hint tokens) :=
  inferInstanceAs (Decidable (_ ∧ _))

/-- The token under the remembered identifier will do, if one is wanted at all. -/
def Remembers (repo : Descriptor) (now : Instant) (hint : Option UInt64)
    (tokens : List AccessTokenRecord) : Prop :=
  repo.accessToken.isSome = true → ∃ uid token, hint = some uid ∧
    chosen now tokens hint = some token ∧ token.uid = uid

theorem Remembers.not_needsToken {repo : Descriptor} {now : Instant} {hint : Option UInt64}
    {tokens : List AccessTokenRecord} (h : Remembers repo now hint tokens) :
    ¬ NeedsToken repo now hint tokens := by
  intro hcase
  obtain ⟨hwanted, hnone⟩ := hcase
  obtain ⟨_, _, -, hsome, -⟩ := h hwanted
  rw [hnone] at hsome
  cases hsome

/-! ## Outlines -/

/-- What counts of a repository when two states of it are compared, besides its deploy keys. -/
structure Outline where
  description : String
  archived : Bool
  files : Table String
  ciVariables : Table CiVariable
  commitBranches : List String
  tokens : Nat
  deriving DecidableEq

namespace Forge.Memory

def Project.outline (project : Project) : Outline where
  description := project.repository.description
  archived := project.repository.archived
  files := project.files
  ciVariables := project.ciVariables
  commitBranches := project.commitBranches
  tokens := project.tokens.length

end Forge.Memory

variable {repo : Descriptor} {now : Instant} {status : RepoStatus} {project : Project}

/-- The outline of a repository after a pass that nothing cuts short. -/
def aim (repo : Descriptor) (now : Instant) (status : RepoStatus) (project : Project) :
    Outline where
  description := repo.effectiveDisplayName
  archived := project.repository.archived
  files := (committed repo project).files
  ciVariables := variablesAim repo status.lastAppliedCiVariables project.ciVariables
  commitBranches := (committed repo project).commitBranches
  tokens := project.tokens.length +
    if NeedsToken repo now status.accessTokenUid project.tokens then 1 else 0

/-- Deploy keys and descriptions do not matter to the aim, and variables only so far as they are not
settled. -/
theorem aim_congr {other : Project}
    (harchived : other.repository.archived = project.repository.archived)
    (hbranch : other.repository.defaultBranch = project.repository.defaultBranch)
    (hfiles : other.files = project.files)
    (hvariables : variablesAim repo status.lastAppliedCiVariables other.ciVariables =
      variablesAim repo status.lastAppliedCiVariables project.ciVariables)
    (hbranches : other.commitBranches = project.commitBranches)
    (htokens : other.tokens = project.tokens) :
    aim repo now status other = aim repo now status project := by
  have hcommitted : (committed repo other).files = (committed repo project).files ∧
      (committed repo other).commitBranches = (committed repo project).commitBranches := by
    unfold committed
    rw [hfiles]
    split
    · exact ⟨hfiles, hbranches⟩
    · dsimp only
      rw [hbranches, hbranch]
      exact ⟨rfl, rfl⟩
  simp only [aim, harchived, hvariables, htokens, hcommitted]

theorem aim_committed :
    aim repo now status (committed repo project) = aim repo now status project := by
  have hagain : committed repo (committed repo project) = committed repo project :=
    committed_of_filePlan_eq_nil filePlan_committed
  rw [aim, hagain]
  simp only [aim, repository_committed, ciVariables_committed, tokens_committed]

/-! ## Rest -/

/-- A pass finds nothing to do on a repository, but perhaps about its deploy keys. -/
structure Rested (repo : Descriptor) (now : Instant) (status : RepoStatus) (project : Project) :
    Prop where
  plan : filePlan repo.templateFiles project.files = []
  description : project.repository.description = repo.effectiveDisplayName
  ciVariables : ∃ previous, status.lastAppliedCiVariables = appliedAim repo previous
  remembers : Remembers repo now status.accessTokenUid project.tokens

/-- A repository at rest is its own aim. -/
theorem Rested.aim_eq (h : Rested repo now status project) :
    aim repo now status project = project.outline := by
  obtain ⟨previous, hprevious⟩ := h.ciVariables
  rw [aim, committed_of_filePlan_eq_nil h.plan, hprevious, variablesAim_appliedAim,
    if_neg h.remembers.not_needsToken, ← h.description]
  rfl

end ForgeSync
