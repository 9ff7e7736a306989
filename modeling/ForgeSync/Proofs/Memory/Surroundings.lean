import ForgeSync.Proofs.Memory.Commit
import ForgeSync.Proofs.Memory.Variables

/-!
# What calls about one repository leave alone

A call looks at one repository, so every other one stays as it is. Of the repository that it looks
at it changes one part, and a commit that follows the plan, or a settlement of managed variables,
leaves most of that part alone too. It does not matter how the call ends.

Main statements: `within_onProject`, `respects_spares` and `moves_ensureAccessToken_within`.
-/

namespace ForgeSync.Forge.Memory

open Calendar (Instant)

variable {α : Type} {site : Site} {path : String} {s t : State} {R S T : Project → Project → Prop}

/-! ## Changes to one repository -/

/-- Other repositories are as they were, and the one at a path, if it was there, is still there and
has changed in some way only. -/
structure Within (path : String) (R : Project → Project → Prop) (before after : State) : Prop where
  others : ∀ other, other ≠ path → after.projects[other]? = before.projects[other]?
  here : ∀ project, before.projects[path]? = some project →
    ∃ next, after.projects[path]? = some next ∧ R project next

theorem Within.of_projects (hR : ∀ project, R project project) (h : t.projects = s.projects) :
    Within path R s t :=
  ⟨fun _ _ => by rw [h], fun project hproject => ⟨project, by rw [h, hproject], hR project⟩⟩

theorem Within.trans_into {u : State} (h : Within path R s t) (h' : Within path S t u)
    (hT : ∀ {a b c}, R a b → S b c → T a c) : Within path T s u := by
  refine ⟨fun other hne => (h'.others other hne).trans (h.others other hne),
    fun project hproject => ?_⟩
  obtain ⟨mid, hmid, hfirst⟩ := h.here project hproject
  obtain ⟨next, hnext, hsecond⟩ := h'.here mid hmid
  exact ⟨next, hnext, hT hfirst hsecond⟩

theorem Within.mono (h : Within path R s t) (hS : ∀ {a b}, R a b → S a b) : Within path S s t :=
  ⟨h.others, fun project hproject =>
    (h.here project hproject).imp fun _ hnext => ⟨hnext.1, hS hnext.2⟩⟩

theorem Within.chains (path : String) (hR : Act.Chains R) : Act.Chains (Within path R) where
  refl _ := .of_projects hR.refl rfl
  trans h h' := h.trans_into h' hR.trans

theorem within_onProject {body : Project → Except Failure (α × Project)}
    (hR : ∀ project, R project project)
    (h : ∀ project a after, body project = .ok (a, after) → R project after)
    (hprojects : t.projects = s.projects) : Within path R s (onProject path body t).2 := by
  unfold onProject
  split
  · exact .of_projects hR hprojects
  · rename_i project hproject
    split
    · exact .of_projects hR hprojects
    · rename_i a after hbody
      rw [hprojects] at hproject
      refine ⟨fun other hne => ?_, fun found hfound => ?_⟩
      · simp [projects_put, Std.ExtTreeMap.getElem?_insert, hne.symm, hprojects]
      · obtain rfl := Option.some.inj (hproject.symm.trans hfound)
        exact ⟨after, getElem?_put_self _ _ _, h project a after hbody⟩

/-! ## Files, variables and the rest -/

/-- What becomes of a repository that is brought in line with a descriptor, while the variables of
`names` are managed: of its own data only the description changes, the files that the template does
not name and those that it wants written stay, and so do other variables. -/
structure Spares (repo : Descriptor) (names : List String) (before after : Project) : Prop where
  repository : after.repository =
    { before.repository with description := after.repository.description }
  unnamed : ∀ file : String, repo.templateFiles[file]? = none →
    after.files[file]? = before.files[file]?
  written : ∀ (file : String) content, repo.templateFiles[file]? = some (.write content) →
    file ∈ before.files → after.files[file]? = before.files[file]?
  unmanaged : AgreeOff names after.ciVariables before.ciVariables

theorem spares_chains (repo : Descriptor) (names : List String) :
    Act.Chains (Spares repo names) where
  refl _ := ⟨rfl, fun _ _ => rfl, fun _ _ _ _ => rfl, .refl _ _⟩
  trans {a b c} h h' := by
    refine ⟨?_, fun file hfile => (h'.unnamed file hfile).trans (h.unnamed file hfile),
      fun file content hfile hthere => ?_, h'.unmanaged.trans h.unmanaged⟩
    · rw [h'.repository, h.repository]
    · have hkept := h.written file content hfile hthere
      refine (h'.written file content hfile ?_).trans hkept
      rw [Std.ExtTreeMap.mem_iff_isSome_getElem?] at hthere ⊢
      rwa [hkept]

/-- The repository is spared, and its tokens are the same. -/
def SparesAll (repo : Descriptor) (names : List String) (before after : Project) : Prop :=
  Spares repo names before after ∧ after.tokens = before.tokens

theorem sparesAll_chains (repo : Descriptor) (names : List String) :
    Act.Chains (SparesAll repo names) where
  refl project := ⟨(spares_chains repo names).refl project, rfl⟩
  trans h h' := ⟨(spares_chains repo names).trans h.1 h'.1, h'.2.trans h.2⟩

/-! ## A commit that follows the plan -/

variable {repo : Descriptor} {names : List String} {project : Project}

theorem path_mem_of_planActions {wanted : Table FileOp} {present : PathSet} {action : CommitAction}
    (h : action ∈ planActions wanted present) :
    ∃ op, wanted[action.path]? = some op ∧ planAction present action.path op = some action := by
  simp only [planActions, List.mem_filterMap, Prod.exists,
    Std.ExtTreeMap.mem_toList_iff_getElem?_eq_some] at h
  obtain ⟨path, op, hwanted, hplan⟩ := h
  obtain rfl := path_of_planAction hplan
  exact ⟨op, hwanted, hplan⟩

/-- A commit that is not refused creates only what is not there, so what is there and wanted
stays. -/
theorem spares_commit {present : PathSet} {branches : List String}
    (hfault : commitFault project.files [] (planActions repo.templateFiles present) = none) :
    SparesAll repo names project { project with
      files := (planActions repo.templateFiles present).foldl applyAction project.files
      commitBranches := branches } := by
  refine ⟨⟨rfl, fun file hfile => ?_, fun file content hfile hthere => ?_, .refl _ _⟩, rfl⟩ <;>
    apply getElem?_foldl_applyAction_of_not_mem <;> rw [List.mem_map]
  · intro hmem
    obtain ⟨action, haction, rfl⟩ := hmem
    obtain ⟨op, hwanted, -⟩ := path_mem_of_planActions haction
    rw [hfile] at hwanted
    cases hwanted
  · intro hmem
    obtain ⟨action, haction, rfl⟩ := hmem
    obtain ⟨op, hwanted, hplan⟩ := path_mem_of_planActions haction
    obtain rfl := Option.some.inj (hfile.symm.trans hwanted)
    have hdelete := ((commitFault_eq_none_iff.1 hfault).1.fits haction).1 hthere
    unfold planAction at hplan
    dsimp only at hplan
    split at hplan
    · cases hplan
    · rw [← Option.some.inj hplan] at hdelete
      cases hdelete

/-! ## The calls of a pass -/

/-- The calls of a pass on a living object that leave the tokens alone. Only variables of `names`
are managed. -/
def sparingCalls (repo : Descriptor) (names : List String) (call : Call) : Prop :=
  Forge.plannedCalls repo call ∨ Forge.creationCalls repo call ∨ Forge.updateCalls repo call ∨
    ∃ managed, (∀ name ∈ managed, name ∈ names) ∧
      Forge.variableCalls repo.fullPath managed repo.ciVariables call

/-- Where there is a repository none is created. -/
theorem within_createProject (hR : ∀ project, R project project) (site : Site)
    (space name description : String) (call : Call) :
    Within (Descriptor.joinPath space name) R s
      (createProject site space name description (s.record call)).2 := by
  unfold createProject
  dsimp only
  split
  · exact .of_projects hR rfl
  · rename_i habsent
    refine ⟨fun other hne => ?_, fun project hproject => (habsent ?_).elim⟩
    · simp [projects_put, Std.ExtTreeMap.getElem?_insert, hne.symm]
    · rw [projects_record, Std.ExtTreeMap.mem_iff_isSome_getElem?, hproject]
      rfl

theorem spares_variables {ciVariables : Table CiVariable}
    (h : AgreeOff names ciVariables project.ciVariables) :
    SparesAll repo names project { project with ciVariables } :=
  ⟨⟨rfl, fun _ _ => rfl, fun _ _ _ _ => rfl, h⟩, rfl⟩

theorem respects_spares (site : Site) (repo : Descriptor) (names : List String) :
    (forge site).Respects (sparingCalls repo names)
      (Within repo.fullPath (SparesAll repo names)) := by
  have hrefl := (sparesAll_chains repo names).refl
  intro call hcall
  cases call <;>
    simp only [sparingCalls, Forge.plannedCalls, Forge.commitCalls, Forge.creationCalls,
      Forge.updateCalls, Forge.variableCalls, or_false, false_or, and_false,
      exists_false] at hcall <;>
    refine Act.moves_map.2 (moves_answer_of (fun _ => .of_projects hrefl rfl) fun s => ?_)
  case getProject => exact .of_projects hrefl rfl
  case createProject space name description =>
      obtain ⟨rfl, rfl, -⟩ := hcall
      exact within_createProject hrefl site _ _ description _
  case editDescription =>
      obtain ⟨hpath, -⟩ := hcall
      rw [change, hpath]
      refine within_onProject hrefl (fun project a after hbody => ?_) rfl
      cases hbody
      exact ⟨⟨rfl, fun _ _ => rfl, fun _ _ _ _ => rfl, .refl _ _⟩, rfl⟩
  case listDeployKeys =>
      rw [look, hcall]
      refine within_onProject hrefl (fun project a after hbody => ?_) rfl
      cases hbody
      exact hrefl project
  case addDeployKey =>
      rw [addDeployKey, change, hcall.elim And.left And.left]
      refine within_onProject hrefl (fun project a after hbody => ?_) rfl
      cases hbody
      exact ⟨⟨rfl, fun _ _ => rfl, fun _ _ _ _ => rfl, .refl _ _⟩, rfl⟩
  case deleteDeployKey =>
      rw [deleteDeployKey, hcall]
      refine within_onProject hrefl (fun project a after hbody => ?_) rfl
      dsimp only at hbody
      split at hbody <;> cases hbody
      exact ⟨⟨rfl, fun _ _ => rfl, fun _ _ _ _ => rfl, .refl _ _⟩, rfl⟩
  case listTreePage page =>
      rw [hcall]
      refine within_onProject hrefl (fun project a after hbody => ?_) rfl
      cases hpage : treePage site.pageSize page project <;> rw [hpage] at hbody <;> cases hbody
      exact hrefl project
  case createCommit =>
      obtain ⟨hpath, present, hactions⟩ := hcall
      rw [createCommit, hpath, hactions]
      refine within_onProject hrefl (fun project a after hbody => ?_) rfl
      split at hbody <;> cases hbody
      exact spares_commit ‹_›
  case updateVariable =>
      obtain ⟨managed, hmanaged, hpath, hwanted⟩ := hcall
      rw [updateVariable, hpath]
      refine within_onProject hrefl (fun project a after hbody => ?_) rfl
      split at hbody <;> cases hbody
      exact spares_variables (agreeOff_writeEntry (hmanaged _ (mem_managedWanted.1 hwanted).2))
  case createVariable =>
      obtain ⟨managed, hmanaged, hpath, hwanted⟩ := hcall
      rw [createVariable, hpath]
      refine within_onProject hrefl (fun project a after hbody => ?_) rfl
      split at hbody <;> cases hbody
      exact spares_variables (agreeOff_writeEntry (hmanaged _ (mem_managedWanted.1 hwanted).2))
  case deleteVariable =>
      obtain ⟨managed, hmanaged, hpath, hsurplus⟩ := hcall
      rw [deleteVariable, hpath]
      refine within_onProject hrefl (fun project a after hbody => ?_) rfl
      split at hbody <;> cases hbody
      exact spares_variables (agreeOff_eraseName (hmanaged _ (mem_surplusNames.1 hsurplus).1))

/-! ## Tokens -/

/-- At most one token is added, at the end, and nothing else changes. -/
def AddsToken (before after : Project) : Prop :=
  after = before ∨ ∃ token, after = { before with tokens := before.tokens ++ [token] }

theorem addsToken_refl (project : Project) : AddsToken project project :=
  .inl rfl

/-- A grant asks for at most one new token. -/
theorem moves_ensureAccessToken_within (site : Site) (now : Instant) (path name : String)
    (hint : Option UInt64) :
    Act.Moves (Within path AddsToken)
      ((forge site).ensureAccessToken now path name hint) := by
  have hsame : ∀ project : Project, project = project := fun _ => rfl
  have hlist : Act.Moves (Within path (· = ·)) ((forge site).listAccessTokens path) := by
    refine moves_answer_of (fun _ => .of_projects hsame rfl) fun s => ?_
    exact within_onProject hsame (fun project a after hbody => by cases hbody; rfl) rfl
  have hcreate : ∀ request,
      Act.Moves (Within path AddsToken) ((forge site).createAccessToken path request) := by
    intro request
    refine moves_answer_of (fun _ => .of_projects addsToken_refl rfl) fun s => ?_
    exact within_onProject addsToken_refl
      (fun project a after hbody => by cases hbody; exact .inr ⟨_, rfl⟩) rfl
  refine hlist.bind_into (S := Within path AddsToken) (fun listed => ?_)
    (fun h => h.mono fun heq => .inl heq.symm)
    fun h h' => h.trans_into h' fun heq hadds => heq ▸ hadds
  dsimp only
  split
  · exact fun s => .of_projects addsToken_refl rfl
  · refine (hcreate _).bind_into (S := fun a b => b = a) (fun created => ?_) id
      fun h heq => heq ▸ h
    cases created.token <;> exact fun s => rfl

/-- The repository is spared, and its tokens are kept; at most one more follows them. -/
structure SparesTokens (repo : Descriptor) (names : List String) (before after : Project) : Prop
    extends Spares repo names before after where
  tokens : after.tokens = before.tokens ∨ ∃ token, after.tokens = before.tokens ++ [token]

theorem SparesTokens.of_all {a b : Project} (h : SparesAll repo names a b) :
    SparesTokens repo names a b :=
  ⟨h.1, .inl h.2⟩

theorem SparesTokens.of_adds {a b c : Project} (h : SparesAll repo names a b) (h' : AddsToken b c) :
    SparesTokens repo names a c := by
  obtain rfl | ⟨token, rfl⟩ := h'
  · exact .of_all h
  · exact ⟨⟨h.1.repository, h.1.unnamed, h.1.written, h.1.unmanaged⟩, .inr ⟨token, by rw [h.2]⟩⟩

end ForgeSync.Forge.Memory
