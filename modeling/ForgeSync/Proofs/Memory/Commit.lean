import ForgeSync.Convergence.Repository
import ForgeSync.Proofs.Memory.Acceptance
import ForgeSync.Proofs.Memory.Hosting
import ForgeSync.Proofs.Memory.Listing

/-!
# Commits of the template

Against a complete listing the plan of a commit is never refused: its paths are distinct, it creates
only what is not there and deletes only what is. It leaves nothing to plan.

Main statements: `commitFault_filePlan`, `filePlan_applied` and `endsOn_commitTemplate`.
-/

namespace ForgeSync

theorem path_of_planAction {present : PathSet} {path : String} {op : FileOp} {a : CommitAction}
    (h : planAction present path op = some a) : a.path = path := by
  unfold planAction at h
  split at h <;> split at h <;> cases h <;> rfl

/-- Only membership in the tree matters to a plan. -/
theorem planActions_congr {wanted : Table FileOp} {present present' : PathSet}
    (h : ∀ path, path ∈ present ↔ path ∈ present') :
    planActions wanted present = planActions wanted present' := by
  have hsame : ∀ path op, planAction present path op = planAction present' path op := by
    intro path op
    cases op <;> simp only [planAction, h path]
  simp only [planActions, hsame]

namespace Forge.Memory

variable {wanted : Table FileOp} {files : Table String} {actions : List CommitAction}
  {action : CommitAction} {path : String}

theorem size_foldl_applyAction_le (files : Table String) (actions : List CommitAction) :
    (actions.foldl applyAction files).size ≤ files.size + actions.length := by
  induction actions generalizing files with
  | nil => exact Nat.le_refl _
  | cons first rest ih =>
      have hstep : (applyAction files first).size ≤ files.size + 1 := by
        cases first with
        | create path content => exact Std.ExtTreeMap.size_insert_le
        | delete path => exact Nat.le_succ_of_le Std.ExtTreeMap.size_erase_le
      rw [List.foldl_cons, List.length_cons]
      have := ih (applyAction files first)
      omega

/-! ## The plan for the files of a repository -/

/-- The changes that make files conform to a template. -/
def filePlan (wanted : Table FileOp) (files : Table String) : List CommitAction :=
  planActions wanted ((∅ : PathSet).insertMany files.keys)

theorem planActions_eq_filePlan {present : PathSet}
    (h : ∀ file, file ∈ present ↔ file ∈ files) :
    planActions wanted present = filePlan wanted files :=
  planActions_congr fun path => by simp [h]

theorem mem_filePlan_iff :
    action ∈ filePlan wanted files ↔
      (∃ content, wanted[action.path]? = some (.write content) ∧ action.path ∉ files ∧
        action = .create action.path content) ∨
      (wanted[action.path]? = some .delete ∧ action.path ∈ files ∧
        action = .delete action.path) := by
  simp only [filePlan, planActions, List.mem_filterMap, Prod.exists,
    Std.ExtTreeMap.mem_toList_iff_getElem?_eq_some]
  constructor
  · intro hwrite
    obtain ⟨path, op, hwanted, hplan⟩ := hwrite
    obtain rfl := path_of_planAction hplan
    cases op with
    | write content => exact .inl ⟨content, by simp_all [planAction]⟩
    | delete => exact .inr (by simp_all [planAction])
  · intro hcase
    rcases hcase with ⟨content, hwanted, habsent, haction⟩ | ⟨hwanted, hpresent, haction⟩
    · exact ⟨action.path, .write content, hwanted,
        by simpa [planAction, habsent] using haction.symm⟩
    · exact ⟨action.path, .delete, hwanted, by simpa [planAction, hpresent] using haction.symm⟩

theorem nodup_path_filePlan (wanted : Table FileOp) (files : Table String) :
    ((filePlan wanted files).map (·.path)).Nodup := by
  have hsublist : ∀ (present : PathSet) (entries : List (String × FileOp)),
      ((entries.filterMap fun entry => planAction present entry.1 entry.2).map (·.path)).Sublist
        (entries.map (·.1)) := by
    intro present entries
    induction entries with
    | nil => exact List.Sublist.refl _
    | cons entry rest ih =>
        rw [List.filterMap_cons, List.map_cons]
        split
        · exact ih.cons _
        · rename_i action haction
          rw [List.map_cons, path_of_planAction haction]
          exact ih.cons_cons _
  refine (List.Nodup.sublist (hsublist _ _) ?_)
  rw [Std.ExtTreeMap.map_fst_toList_eq_keys]
  exact Std.ExtTreeMap.nodup_keys

theorem commitFault_filePlan (wanted : Table FileOp) (files : Table String) :
    commitFault files [] (filePlan wanted files) = none := by
  refine commitFault_eq_none_iff.2 ⟨consistent_iff_fits.2 ⟨nodup_path_filePlan wanted files, ?_⟩,
    fun _ _ => List.not_mem_nil⟩
  intro action haction
  obtain ⟨content, -, habsent, hcreate⟩ | ⟨-, hpresent, hdelete⟩ := mem_filePlan_iff.1 haction
  · rw [hcreate] at habsent ⊢
    simpa [CommitAction.isDelete] using habsent
  · rw [hdelete] at hpresent ⊢
    simpa [CommitAction.isDelete] using hpresent

/-- The files after the plan. -/
def applied (wanted : Table FileOp) (files : Table String) : Table String :=
  (filePlan wanted files).foldl applyAction files

/-- A wanted file is there, with its old content if it had any, an unwanted one is not, and what
the template does not name is as it was. -/
theorem getElem?_applied (wanted : Table FileOp) (files : Table String) (path : String) :
    (applied wanted files)[path]? =
      match wanted[path]? with
      | none => files[path]?
      | some (.write content) => some (files[path]?.getD content)
      | some .delete => none := by
  by_cases hmem : path ∈ (filePlan wanted files).map (·.path)
  · obtain ⟨action, haction, rfl⟩ := List.mem_map.1 hmem
    rw [applied, getElem?_foldl_applyAction_of_mem (nodup_path_filePlan wanted files) haction]
    obtain ⟨content, hwanted, habsent, hcreate⟩ | ⟨hwanted, hpresent, hdelete⟩ :=
      mem_filePlan_iff.1 haction
    · rw [hwanted, Std.ExtTreeMap.getElem?_eq_none habsent, hcreate]
      rfl
    · rw [hwanted, hdelete]
      rfl
  · rw [applied, getElem?_foldl_applyAction_of_not_mem hmem]
    have hnone : ∀ action, action ∈ filePlan wanted files → action.path ≠ path :=
      fun action haction hsame => hmem (List.mem_map.2 ⟨action, haction, hsame⟩)
    cases hwanted : wanted[path]? with
    | none => rfl
    | some op =>
        cases op with
        | write content =>
            by_cases hpath : path ∈ files
            · obtain ⟨old, hold⟩ := Std.ExtTreeMap.isSome_getElem?_iff_mem.2 hpath |>
                Option.isSome_iff_exists.1
              simp [hold]
            · exact (hnone (.create path content)
                (mem_filePlan_iff.2 (.inl ⟨content, hwanted, hpath, rfl⟩)) rfl).elim
        | delete =>
            by_cases hpath : path ∈ files
            · exact (hnone (.delete path)
                (mem_filePlan_iff.2 (.inr ⟨hwanted, hpath, rfl⟩)) rfl).elim
            · exact Std.ExtTreeMap.getElem?_eq_none hpath

/-- The plan leaves nothing to plan. -/
theorem filePlan_applied (wanted : Table FileOp) (files : Table String) :
    filePlan wanted (applied wanted files) = [] := by
  rw [List.eq_nil_iff_forall_not_mem]
  intro action haction
  obtain ⟨content, hwanted, habsent, -⟩ | ⟨hwanted, hpresent, -⟩ := mem_filePlan_iff.1 haction
  · refine habsent (Std.ExtTreeMap.mem_iff_isSome_getElem?.2 ?_)
    rw [getElem?_applied, hwanted]
    rfl
  · have hsome := Std.ExtTreeMap.mem_iff_isSome_getElem?.1 hpresent
    rw [getElem?_applied, hwanted] at hsome
    cases hsome

theorem applied_of_filePlan_eq_nil (h : filePlan wanted files = []) :
    applied wanted files = files := by
  rw [applied, h, List.foldl_nil]

theorem size_applied_le (wanted : Table FileOp) (files : Table String) :
    (applied wanted files).size ≤ files.size + wanted.size := by
  have hlength : (filePlan wanted files).length ≤ wanted.size := by
    rw [← Std.ExtTreeMap.length_toList]
    exact List.length_filterMap_le _ _
  have := size_foldl_applyAction_le files (filePlan wanted files)
  rw [applied]
  omega

/-! ## The commit -/

/-- A repository with the template committed, unless nothing is to be done. -/
def committed (repo : Descriptor) (project : Project) : Project :=
  if filePlan repo.templateFiles project.files = [] then project
  else
    { project with
      files := applied repo.templateFiles project.files
      commitBranches :=
        project.commitBranches ++ [project.repository.defaultBranch.getD fallbackBranch] }

variable {repo : Descriptor} {project : Project} {site : Site} {s : State}

@[simp] theorem repository_committed :
    (committed repo project).repository = project.repository := by
  unfold committed
  split <;> rfl

@[simp] theorem deployKeys_committed :
    (committed repo project).deployKeys = project.deployKeys := by
  unfold committed
  split <;> rfl

@[simp] theorem ciVariables_committed :
    (committed repo project).ciVariables = project.ciVariables := by
  unfold committed
  split <;> rfl

@[simp] theorem tokens_committed : (committed repo project).tokens = project.tokens := by
  unfold committed
  split <;> rfl

theorem files_committed :
    (committed repo project).files = applied repo.templateFiles project.files := by
  unfold committed
  split
  · exact (applied_of_filePlan_eq_nil ‹_›).symm
  · rfl

theorem filePlan_committed : filePlan repo.templateFiles (committed repo project).files = [] := by
  rw [files_committed, filePlan_applied]

theorem committed_of_filePlan_eq_nil (h : filePlan repo.templateFiles project.files = []) :
    committed repo project = project :=
  if_pos h

theorem mutations_fetchTree (site : Site) (path : String) (s : State) :
    (((forge site).fetchTree path).runFrom s).2.mutations = s.mutations := by
  have hchains : Act.Chains fun before after : State => after.mutations = before.mutations :=
    ⟨fun _ => rfl, fun h h' => h'.trans h⟩
  refine moves_fetchTree hchains (fun page => moves_answer hchains (fun s => ?_) fun s => ?_) s
  · simp [Call.isMutating]
  · unfold listTreePage onProject
    split
    · rfl
    · split <;> rfl

theorem endsOn_fetchTree (h : Hosts path project s) (hcount : Countable site project) :
    EndsOn path 0 ((forge site).fetchTree path) s
      (fun present after t => (∀ file, file ∈ present ↔ file ∈ project.files) ∧ after = project ∧
        t.mutations = s.mutations)
      fun after => after = project := by
  have hquiet := mutations_fetchTree site path s
  have hends := ends_fetchTree hcount h.found
  unfold EndsOn EndsVia Act.Ends at *
  rcases hrun : ((forge site).fetchTree path).runFrom s with ⟨failure | present, t⟩ <;>
    rw [hrun] at hquiet hends
  · exact ⟨hends.2, project, h.of_reads hends.1, hends.1.spends hquiet, rfl⟩
  · exact ⟨project, h.of_reads hends.1, hends.1.spends hquiet, hends.2, rfl, hquiet⟩

theorem endsOn_createCommit {branch message : String} {actions : List CommitAction}
    (h : Hosts path project s) (hfault : commitFault project.files [] actions = none) :
    EndsOn path 0 ((forge site).createCommit path branch message actions) s
      (fun _ after _ => after = { project with
        files := actions.foldl applyAction project.files
        commitBranches := project.commitBranches ++ [branch] })
      fun after => after = project := by
  refine (ends_call h ?_).mono ?_ ?_
  · intro _ after hbody
    rw [hfault] at hbody
    obtain rfl := congrArg Prod.snd (Except.ok.inj hbody)
    exact List.Sublist.refl _
  · intro _ t hend
    obtain ⟨after, hbody, hhosts, hspends, -⟩ := hend
    rw [hfault] at hbody
    obtain rfl := congrArg Prod.snd (Except.ok.inj hbody)
    exact ⟨_, hhosts, hspends, rfl⟩
  · intro failure t hend
    rcases hend with ⟨hhosts, hspends, ⟨hfailures, -⟩ | hbody⟩
    · exact ⟨hfailures, project, hhosts, hspends, rfl⟩
    · rw [hfault] at hbody
      cases hbody

theorem endsOn_commitTemplate (h : Hosts repo.fullPath project s)
    (hcount : Countable site project) :
    EndsOn repo.fullPath 0 ((forge site).commitTemplate repo) s
      (fun _ after t => after = committed repo project ∧
        (filePlan repo.templateFiles project.files = [] → t.mutations = s.mutations))
      fun after => after = project := by
  unfold Forge.commitTemplate
  by_cases hempty : repo.templateFiles.isEmpty = true
  · have hplan : filePlan repo.templateFiles project.files = [] := by
      simp [filePlan, planActions, Std.ExtTreeMap.isEmpty_iff.1 hempty]
    rw [if_pos hempty]
    exact endsVia_pure h ⟨(committed_of_filePlan_eq_nil hplan).symm, fun _ => rfl⟩
  rw [if_neg hempty]
  apply (endsOn_getProject h).bind (m := 0) (n := 0)
  intro remote project t ht _ hend
  obtain ⟨rfl, rfl, hread⟩ := hend
  have hfiles : EndsOn repo.fullPath 0
      ((forge site).syncFiles repo (project.repository.defaultBranch)) t
      (fun _ after u => after = committed repo project ∧
        (filePlan repo.templateFiles project.files = [] → u.mutations = t.mutations))
      fun after => after = project := by
    unfold Forge.syncFiles
    rw [if_neg hempty]
    apply (endsOn_fetchTree ht hcount).bind (m := 0) (n := 0)
    intro present project u hu _ hend
    obtain ⟨hpresent, rfl, hlisted⟩ := hend
    rw [planActions_eq_filePlan hpresent]
    dsimp only
    by_cases hplan : filePlan repo.templateFiles project.files = []
    · rw [if_pos (by rw [hplan]; rfl)]
      exact endsVia_pure hu ⟨(committed_of_filePlan_eq_nil hplan).symm, fun _ => hlisted⟩
    · rw [if_neg (by simpa using hplan)]
      refine (endsOn_createCommit hu (commitFault_filePlan _ _)).bind (m := 0) (n := 0)
        fun _ after v hv _ hafter => endsVia_pure hv ⟨?_, fun hnil => (hplan hnil).elim⟩
      rw [hafter, committed, if_neg hplan]
      rfl
  refine hfiles.bind (m := 0) (n := 0) fun _ after u hu _ hafter => endsVia_pure hu ⟨hafter.1, ?_⟩
  exact fun hplan => (hafter.2 hplan).trans hread

end Forge.Memory

end ForgeSync
