import ForgeSync.Proofs.Forge.Recording
import ForgeSync.Proofs.Memory.Commit
import ForgeSync.Proofs.Memory.Log
import ForgeSync.Proofs.Memory.Undisturbed

/-!
# Bringing files in line

While no failure awaits a call, the files of a repository are brought in line with a template at
once: the listing names every file, so the plan is accepted as it stands, and one commit carries it
out. What is left needs no further commit.

Main statements: `yields_syncFiles` and `syncFiles_settles`.
-/

namespace ForgeSync.Forge

/-- The calls that commit. -/
def Call.isCommit : Call → Bool
  | .createCommit _ _ _ _ => true
  | _ => false

namespace Memory

variable {s : State} {site : Site} {path branch : String} {project : Project} {repo : Descriptor}

/-! ## Listing -/

/-- The files of a repository can be listed: there are none, or the words are wide enough. -/
def Listable (site : Site) (project : Project) : Prop :=
  project.files = ∅ ∨ Countable site project

theorem yields_fetchTree (h : Calm path project s) (hlist : Listable site project) :
    Yields path 0 ((forge site).fetchTree path) s project
      fun present _ => ∀ file, file ∈ present ↔ file ∈ project.files := by
  have hends : ((forge site).fetchTree path).Ends s
      (fun present t => Reads s t ∧ ∀ file, file ∈ present ↔ file ∈ project.files)
      fun _ t => Reads s t ∧ s.failures ≠ ∅ :=
    hlist.elim (fun hempty => ends_fetchTree_of_empty hempty h.found)
      fun hcount => ends_fetchTree hcount h.found
  exact hends.mono (fun present t hend => ⟨h.becomes_of_reads hend.1, hend.2⟩)
    fun _ _ hend => hend.2 h.failures

theorem records_calls (site : Site) : (forge site).Records State.calls :=
  calls_performCall site

/-- A listing makes no commit. -/
theorem grows_fetchTree (site : Site) (path : String) :
    Act.Moves (Grows State.calls Call.isCommit []) ((forge site).fetchTree path) :=
  moves_fetchTree (Grows.chains _ _) fun page =>
    Act.moves_map.1 ((records_calls site).moves Call.isCommit (.listTreePage path page))

/-! ## The commit -/

/-- What an action does anyhow comes on top of what it does undisturbed. -/
theorem Yields.and_moves {α : Type} {n : Nat} {act : Act State α} {after : Project}
    {post : α → State → Prop} {R : State → State → Prop} (h : Yields path n act s after post)
    (hmoves : Act.Moves R act) : Yields path n act s after fun a t => post a t ∧ R s t :=
  (Act.Ends.and h (hmoves.ends s)).mono (fun _ _ hend => ⟨hend.1.1, hend.1.2, hend.2⟩)
    fun _ _ hend => hend.1

theorem yields_createCommit (h : Calm path project s) {message : String}
    {actions : List CommitAction} (hfault : commitFault project.files [] actions = none) :
    Yields path 0 ((forge site).createCommit path branch message actions) s
      { project with
        files := actions.foldl applyAction project.files
        commitBranches := project.commitBranches ++ [branch] }
      fun _ t => Grows State.calls Call.isCommit [.createCommit path branch message actions] s t := by
  have hgrows := Act.moves_map.1
    ((records_calls site).moves Call.isCommit (.createCommit path branch message actions))
  refine ((yields_call (a := ()) h ?_).and_moves hgrows).mono fun _ _ _ hend => hend.2
  rw [hfault]

/-- A repository with the template committed on a branch, unless nothing is to be done. -/
def committedOn (branch : String) (repo : Descriptor) (project : Project) : Project :=
  if filePlan repo.templateFiles project.files = [] then project
  else
    { project with
      files := applied repo.templateFiles project.files
      commitBranches := project.commitBranches ++ [branch] }

/-- The commits that this takes, at most one. -/
def commitsOn (branch : String) (repo : Descriptor) (project : Project) : List Call :=
  if filePlan repo.templateFiles project.files = [] then []
  else [.createCommit repo.fullPath branch commitMessage
    (filePlan repo.templateFiles project.files)]

theorem committedOn_eq (branch : String) (repo : Descriptor) (project : Project) :
    committedOn branch repo project = { project with
      files := applied repo.templateFiles project.files
      commitBranches :=
        project.commitBranches ++ (commitsOn branch repo project).map fun _ => branch } := by
  unfold committedOn commitsOn
  split
  · rename_i hplan
    simp [applied_of_filePlan_eq_nil hplan]
  · rfl

/-- The plan is carried out, and it is told how long it was. -/
theorem yields_syncFiles (h : Calm repo.fullPath project s) (hlist : Listable site project)
    (branch : Option String) :
    Yields repo.fullPath 0 ((forge site).syncFiles repo branch) s
      (committedOn (branch.getD fallbackBranch) repo project)
      fun count t => count = (filePlan repo.templateFiles project.files).length ∧
        Grows State.calls Call.isCommit
          (commitsOn (branch.getD fallbackBranch) repo project) s t := by
  unfold Forge.syncFiles committedOn commitsOn
  by_cases hempty : repo.templateFiles.isEmpty = true
  · have hplan : filePlan repo.templateFiles project.files = [] := by
      simp [filePlan, planActions, Std.ExtTreeMap.isEmpty_iff.1 hempty]
    rw [if_pos hempty, if_pos hplan, if_pos hplan, hplan]
    exact yields_pure h ⟨rfl, .refl _ _ s⟩
  rw [if_neg hempty]
  refine Yields.bind (m := 0) (n := 0) h.failures
    ((yields_fetchTree h hlist).and_moves (grows_fetchTree site _)) fun present t ht _ hend => ?_
  obtain ⟨hpresent, hquiet⟩ := hend
  rw [planActions_eq_filePlan hpresent]
  dsimp only
  by_cases hplan : filePlan repo.templateFiles project.files = []
  · rw [if_pos (by rw [hplan]; rfl), if_pos hplan, if_pos hplan, hplan]
    exact yields_pure ht ⟨rfl, hquiet⟩
  · rw [if_neg (by simpa using hplan), if_neg hplan, if_neg hplan]
    refine Yields.bind (m := 0) (n := 0) ht.failures
      (yields_createCommit ht (commitFault_filePlan _ _)) fun _ u hu _ hcommit => ?_
    exact yields_pure hu ⟨rfl, hquiet.trans hcommit⟩

/-! ## Files before and after -/

/-- What bringing files in line with a template means for each path. -/
structure SettlesFiles (wanted : Table FileOp) (before after : Table String) : Prop where
  deleted : ∀ file, wanted[file]? = some .delete → file ∉ after
  created : ∀ file content, wanted[file]? = some (.write content) → file ∉ before →
    after[file]? = some content
  kept : ∀ file content, wanted[file]? = some (.write content) → file ∈ before →
    after[file]? = before[file]?
  unnamed : ∀ file, file ∉ wanted → after[file]? = before[file]?

theorem settlesFiles_applied (wanted : Table FileOp) (files : Table String) :
    SettlesFiles wanted files (applied wanted files) where
  deleted file hwanted := by
    rw [Std.ExtTreeMap.mem_iff_isSome_getElem?, getElem?_applied, hwanted]
    exact Bool.false_ne_true
  created file content hwanted habsent := by
    rw [getElem?_applied, hwanted, Std.ExtTreeMap.getElem?_eq_none habsent]
    rfl
  kept file content hwanted hpresent := by
    obtain ⟨old, hold⟩ := Option.isSome_iff_exists.1
      (Std.ExtTreeMap.isSome_getElem?_iff_mem.2 hpresent)
    rw [getElem?_applied, hwanted, hold]
    rfl
  unnamed file hunnamed := by
    rw [getElem?_applied, Std.ExtTreeMap.getElem?_eq_none hunnamed]

theorem listable_applied (hpage : 0 < site.pageSize) (hword : site.pageSize < Text.bound64)
    (hfiles : 2 * (project.files.size + repo.templateFiles.size) ≤ Text.bound64)
    (branches : List String) :
    Listable site { project with
      files := applied repo.templateFiles project.files
      commitBranches := branches } := by
  have hsize := size_applied_le repo.templateFiles project.files
  exact .inr ⟨hpage, hword, by dsimp only; omega⟩

/-- The files of a repository are brought in line with a template. Pages have a size that is a
word, and as everything is held in memory, files and template fill at most half of the words. Then
the work succeeds, without halting the program, and tells the length of the plan. It makes one
commit, on the default branch or the fallback, unless the plan is empty; nothing else on the forge
changes. Afterwards there is nothing more to do. -/
theorem syncFiles_settles (h : Calm repo.fullPath project s) (hpage : 0 < site.pageSize)
    (hword : site.pageSize < Text.bound64)
    (hfiles : 2 * (project.files.size + repo.templateFiles.size) ≤ Text.bound64)
    (branch : Option String) :
    ∃ t files,
      ((forge site).syncFiles repo branch).runFrom s =
        (.ok (filePlan repo.templateFiles project.files).length, t) ∧
      t.halted = s.halted ∧
      Grows State.calls Call.isCommit (commitsOn (branch.getD "main") repo project) s t ∧
      t.projects[repo.fullPath]? = some { project with
        files
        commitBranches := project.commitBranches ++
          (commitsOn (branch.getD "main") repo project).map fun _ => branch.getD "main" } ∧
      (∀ other, other ≠ repo.fullPath → t.projects[other]? = s.projects[other]?) ∧
      SettlesFiles repo.templateFiles project.files files ∧
      ∀ next, ∃ u, ((forge site).syncFiles repo next).runFrom t = (.ok 0, u) ∧
        u.halted = s.halted ∧ Grows State.calls Call.isCommit [] t u ∧ u.projects = t.projects := by
  have hlist : Listable site project := .inr ⟨hpage, hword, by omega⟩
  obtain ⟨count, t, hrun, hbecomes, rfl, hcommits⟩ := (yields_syncFiles h hlist branch).exists_ok
  rw [committedOn_eq] at hbecomes
  have hgoes : t.halted = s.halted := hbecomes.halted.trans (haltsBy_zero s)
  refine ⟨t, _, hrun, hgoes, hcommits, hbecomes.here, hbecomes.others, settlesFiles_applied _ _, ?_⟩
  intro next
  have ht := Calm.of_becomes h.failures hbecomes
  obtain ⟨again, u, hagain, hstays, rfl, hquiet⟩ :=
    (yields_syncFiles ht (listable_applied hpage hword hfiles _) next).exists_ok
  unfold committedOn at hstays
  unfold commitsOn at hquiet
  rw [if_pos (filePlan_applied _ _)] at hstays hquiet
  rw [filePlan_applied] at hagain
  exact ⟨u, hagain, (hstays.halted.trans (haltsBy_zero t)).trans hgoes, hquiet,
    ((ht.becomes_of_reads (reads_chains.refl t)).reads hstays).projects⟩

/-- A repository with three files. -/
def threeFiles : Project where
  repository := { id := 1, fullPath := "acme/r" }
  files := .ofList [("a.yml", "old"), ("c.yml", "mine"), ("d.yml", "other")]

/-- Of the wanted files one has to go, one is missing, and one is there with other content. -/
def threeWishes : Descriptor where
  path := "acme"
  repoName := "r"
  templateFiles :=
    .ofList [("a.yml", FileOp.delete), ("b.yml", FileOp.write "b"), ("c.yml", FileOp.write "c")]

/-- Pages that list one file each. -/
theorem syncFiles_settles_smallPages :
    let site : Site := ⟨"memory://git.example", 1⟩
    ∃ t u files,
      ((forge site).syncFiles threeWishes (some "trunk")).runFrom
        (State.put {} "acme/r" threeFiles) = (.ok 2, t) ∧ t.halted = false ∧
      t.projects["acme/r"]? = some { threeFiles with files, commitBranches := ["trunk"] } ∧
      "a.yml" ∉ files ∧ files["b.yml"]? = some "b" ∧ files["c.yml"]? = some "mine" ∧
      files["d.yml"]? = some "other" ∧
      ((forge site).syncFiles threeWishes none).runFrom t = (.ok 0, u) := by
  intro site
  have hpath : threeWishes.fullPath = "acme/r" := by decide +kernel
  have hplan : (filePlan threeWishes.templateFiles threeFiles.files).length = 2 := by
    decide +kernel
  have hcalm : Calm threeWishes.fullPath threeFiles (State.put {} "acme/r" threeFiles) := by
    rw [hpath]
    exact ⟨getElem?_put_self _ _ _, rfl⟩
  obtain ⟨t, files, hrun, hgoes, -, hafter, -, hsettles, hnext⟩ :=
    syncFiles_settles hcalm (by decide : 0 < site.pageSize) (by decide) (by decide +kernel)
      (some "trunk")
  obtain ⟨u, hagain, -⟩ := hnext none
  have hcommits : ((commitsOn "trunk" threeWishes threeFiles).map fun _ => "trunk") =
      ["trunk"] := by
    decide +kernel
  rw [hplan] at hrun
  rw [hpath] at hafter
  refine ⟨t, u, files, hrun, hgoes, ?_, hsettles.deleted _ (by decide +kernel),
    hsettles.created _ _ (by decide +kernel) (by decide +kernel), ?_, ?_, hagain⟩
  · rw [hafter, Option.getD_some, hcommits]
    rfl
  · rw [hsettles.kept "c.yml" "c" (by decide +kernel) (by decide +kernel)]
    decide +kernel
  · rw [hsettles.unnamed "d.yml" (by decide +kernel)]
    decide +kernel

end Memory

end ForgeSync.Forge
