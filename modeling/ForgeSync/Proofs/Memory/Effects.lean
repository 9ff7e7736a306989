import ForgeSync.Proofs.Memory.Syncing
import ForgeSync.Proofs.Memory.Tokens
import ForgeSync.Proofs.Memory.Update
import ForgeSync.Proofs.Memory.Settlement

/-!
# What undisturbed operations come to

The operations of a pass besides the update, each with the repository that it leaves while no
failure awaits a call: the creation, the commit of the template, the settlement of CI variables and
the grant of an access token.

Main statements: `yields_commitTemplate`, `ends_createRepository_calm`, `yields_reconcileVariables`
and `yields_ensureAccessToken_of_none`.
-/

namespace ForgeSync.Forge.Memory

open Calendar (Instant)

variable {β : Type} {s t : State} {site : Site} {path : String} {project : Project}
  {repo : Descriptor}

/-! ## Template files -/

theorem yields_commitTemplate (h : Calm repo.fullPath project s) (hlist : Listable site project) :
    Yields repo.fullPath 0 ((forge site).commitTemplate repo) s (committed repo project)
      fun _ _ => True := by
  unfold Forge.commitTemplate
  by_cases hempty : repo.templateFiles.isEmpty = true
  · have hplan : filePlan repo.templateFiles project.files = [] := by
      simp [filePlan, planActions, Std.ExtTreeMap.isEmpty_iff.1 hempty]
    rw [if_pos hempty, committed_of_filePlan_eq_nil hplan]
    exact yields_pure h trivial
  rw [if_neg hempty]
  refine Yields.bind (m := 0) (n := 0) h.failures (yields_getProject h) fun remote t ht _ hend => ?_
  obtain ⟨rfl, -⟩ := hend
  have hfiles : Yields repo.fullPath 0
      ((forge site).syncFiles repo project.repository.defaultBranch) t (committed repo project) _ :=
    yields_syncFiles ht hlist _
  exact Yields.bind (m := 0) (n := 0) ht.failures hfiles fun _ u hu _ _ => yields_pure hu trivial

/-! ## Creation -/

/-- A repository as it is created. Its deploy keys have the identifiers that follow its own. -/
def createdProject (site : Site) (repo : Descriptor) (last : UInt64) : Project :=
  { newProject site (last + 1) repo.fullPath repo.effectiveDisplayName with
    deployKeys := numbered (last + 1) repo.deployKeys.toList }

theorem ends_createProject_calm {space name description : String} (hfailures : s.failures = ∅)
    (habsent : s.projects[Descriptor.joinPath space name]? = none) :
    ((forge site).createProject space name description).Ends s
      (fun _ t => Becomes (Descriptor.joinPath space name)
        (some (newProject site (s.lastId + 1) (Descriptor.joinPath space name) description)) 1 s t)
      fun _ _ => False := by
  apply ends_answer (fun hfailing => absurd hfailures hfailing)
  unfold Act.Ends createProject
  rw [Act.runFrom_ofFunction]
  dsimp only
  rw [if_neg (by simpa using habsent)]
  exact (show Becomes _ none 1 s (s.record _).takeId from
    ⟨habsent, fun _ _ => rfl, rfl, rfl, rfl⟩).trans
    (becomes_put _ _ _)

theorem ends_createRepository_calm (hfailures : s.failures = ∅)
    (habsent : s.projects[repo.fullPath]? = none) :
    ((forge site).createRepository repo).Ends s
      (fun _ t => Becomes repo.fullPath (some (createdProject site repo s.lastId))
        (1 + repo.deployKeys.size) s t)
      fun _ _ => False := by
  unfold Forge.createRepository
  rw [Act.ends_bind]
  refine (ends_createProject_calm hfailures habsent).mono ?_ fun _ _ => False.elim
  intro _ t hcreated
  have ht : Calm repo.fullPath _ t := .of_becomes hfailures hcreated
  have hlast : t.lastId = s.lastId + 1 := hcreated.lastId
  have hkeys : Yields repo.fullPath repo.deployKeys.toList.length
      (repo.deployKeys.toList.mapM fun entry =>
        (forge site).addKey repo.fullPath entry.1 entry.2) t _ _ :=
    yields_addKeys ht repo.deployKeys.toList
  rw [Act.ends_bind]
  refine Act.Ends.mono hkeys ?_ fun _ _ => False.elim
  intro outcomes u hend
  obtain ⟨hkeyed, hwell⟩ := hend
  rw [Failure.ofBatch_eq_ok_iff.2 hwell, Act.ends_ofExcept_ok, ← Std.ExtTreeMap.length_toList]
  rw [hlast] at hkeyed
  exact hcreated.trans hkeyed

/-! ## Bare repositories -/

/-- Where nothing is listed, all keys are missing and none is surplus. -/
theorem keyDelta_nil (repo : Descriptor) :
    (keyDelta repo []).add = repo.deployKeys ∧
      Forge.surplusKeys (.ofListing []) (keyDelta repo []) = [] := by
  constructor
  · apply Std.ExtTreeMap.ext_getElem?
    intro title
    rw [getElem?_add_keyDelta]
    split
    · rename_i hnone
      rw [hnone]
      rfl
    · rfl
  · simp [Forge.surplusKeys, ListedKeys.ofListing]

/-- The update of a repository without deploy keys adds them all. -/
theorem yields_updateRepository_of_bare (h : Calm repo.fullPath project s)
    (hbare : project.deployKeys = []) :
    Yields repo.fullPath repo.deployKeys.size ((forge site).updateRepository repo) s
      (described repo { project with deployKeys := numbered s.lastId repo.deployKeys.toList })
      fun _ _ => True := by
  obtain ⟨hadd, hsurplus⟩ := keyDelta_nil repo
  have hkeys : Yields repo.fullPath repo.deployKeys.size ((forge site).syncDeployKeys repo) s
      { project with deployKeys := numbered s.lastId repo.deployKeys.toList } fun _ _ => True := by
    unfold Forge.syncDeployKeys
    refine Yields.cast (Yields.bind (n := repo.deployKeys.toList.length) h.failures
      (yields_look h (·.deployKeys)) fun listing t ht hlisted hend => ?_)
      (by rw [Nat.zero_add, Std.ExtTreeMap.length_toList])
    obtain ⟨rfl, -⟩ := hend
    rw [hbare, ← hlisted.lastId_eq]
    dsimp only
    rw [show KeyDelta.between repo.deployKeys (ListedKeys.ofListing []).values = keyDelta repo []
      from rfl, hadd, hsurplus]
    -- no key is listed that another one could replace
    have hloop : Yields repo.fullPath repo.deployKeys.toList.length
        (repo.deployKeys.toList.mapM fun entry => (forge site).replaceKey repo.fullPath
          ((ListedKeys.ofListing []).byTitle[entry.1]?.map (·.1)) entry.1 entry.2) t
        { project with deployKeys := numbered t.lastId repo.deployKeys.toList }
        fun outcomes _ => AllWell outcomes := by
      simpa [hbare, ListedKeys.ofListing, Forge.replaceKey] using
        yields_addKeys ht repo.deployKeys.toList
    refine Yields.bind (m := repo.deployKeys.toList.length) (n := 0) ht.failures hloop
      fun outcomes u hu _ hwell => ?_
    rw [List.mapM_nil, pure_bind, List.append_nil, Failure.ofBatch_eq_ok_iff.2 hwell]
    exact yields_pure hu trivial
  unfold Forge.updateRepository
  exact Yields.bind (m := repo.deployKeys.size) (n := 0) h.failures hkeys fun _ t ht _ _ =>
    Yields.bind (m := 0) (n := 0) ht.failures (yields_syncDescription ht) fun _ u hu _ _ =>
      yields_pure hu trivial

/-! ## CI variables -/

theorem yields_reconcileVariables (h : Calm path project s) (managed : List String)
    (wanted : List CiVariable) :
    Yields path 0 ((forge site).reconcileVariables path managed wanted) s
      { project with ciVariables := settled managed wanted project.ciVariables }
      fun _ _ => True := by
  refine (ends_reconcileVariables h.found managed wanted).mono (fun _ t hend => ?_)
    fun _ _ hend => hend.1 (variableErrors_of_failures_eq_empty h.failures managed wanted _)
  obtain ⟨hnone, vars, hsettles, -⟩ := hend
  rw [← hsettles.eq_settled hnone]
  exact ⟨hsettles.resets, trivial⟩

/-! ## Access tokens -/

/-- A token as it is created under an identifier. -/
def mintedToken (name : String) (now : Instant) (uid : UInt64) : AccessTokenRecord where
  uid
  name
  active := true
  revoked := false
  expiresAt := now.addDays tokenLifetimeDays
  scopes := tokenScopes
  token := some (secretOf uid)

variable {now : Instant} {hint : Option UInt64}

/-- A token that will do is granted without its secret. -/
theorem yields_ensureAccessToken_of_chosen (h : Calm path project s) (name : String)
    {token : AccessTokenRecord} (hchosen : chosen now project.tokens hint = some token) :
    Yields path 0 ((forge site).ensureAccessToken now path name hint) s project
      fun grant _ => grant = ⟨token.uid, token.expiresAt, none⟩ := by
  unfold Forge.ensureAccessToken
  refine Yields.bind (m := 0) (n := 0) h.failures (yields_look h _) fun listed t ht _ hend => ?_
  obtain ⟨rfl, -⟩ := hend
  dsimp only
  rw [selectToken_listed, hchosen]
  exact yields_pure ht rfl

/-- Where none will do, one is created under the next identifier. -/
theorem yields_ensureAccessToken_of_none (h : Calm path project s) (name : String)
    (hchosen : chosen now project.tokens hint = none) :
    Yields path 1 ((forge site).ensureAccessToken now path name hint) s
      { project with tokens := project.tokens ++ [mintedToken name now (s.lastId + 1)] }
      fun grant _ => grant = ⟨s.lastId + 1, now.addDays tokenLifetimeDays,
        some (secretOf (s.lastId + 1))⟩ := by
  unfold Forge.ensureAccessToken
  refine Yields.bind (m := 0) (n := 1) h.failures (yields_look h _)
    fun listed t ht hlisted hend => ?_
  obtain ⟨rfl, -⟩ := hend
  dsimp only
  rw [selectToken_listed, hchosen, ← hlisted.lastId_eq]
  refine Yields.bind (m := 1) (n := 0) ht.failures (yields_call_takeId (f := fun uid p =>
    (mintedToken name now uid, { p with tokens := p.tokens ++ [mintedToken name now uid] })) ht)
    fun token u hu _ hend => ?_
  obtain ⟨rfl, -⟩ := hend
  exact yields_pure hu rfl

end ForgeSync.Forge.Memory
