import ForgeSync.Proofs.Memory.Calls

/-!
# Commits that are accepted

A commit is looked over action by action before any of them is carried out, and it is accepted
exactly if its actions go together with each other and with the files. Then they can be carried out
in any order: each path belongs to one action, which alone decides what becomes of it.

Main statements: `commitFault_eq_none_iff`, `carriesOut_foldl` and `createCommit_accepted_iff`.
-/

namespace ForgeSync

/-- The file that an action leaves at its path. -/
def CommitAction.content? : CommitAction → Option String
  | create _ content => some content
  | delete _ => none

namespace Forge.Memory

variable {files before after : Table String} {actions reordered : List CommitAction}
  {action : CommitAction} {path branch message : String}

/-! ## Looking over a commit -/

/-- The actions go together with each other and with the files: no two of them have one path, what
is created is not there, and what is deleted is. -/
structure Consistent (files : Table String) (actions : List CommitAction) : Prop where
  distinct : (actions.map (·.path)).Nodup
  created : ∀ path content, .create path content ∈ actions → path ∉ files
  deleted : ∀ path, .delete path ∈ actions → path ∈ files

/-- Each action finds what it expects. -/
theorem consistent_iff_fits :
    Consistent files actions ↔ (actions.map (·.path)).Nodup ∧
      ∀ action ∈ actions, action.path ∈ files ↔ action.isDelete = true := by
  constructor
  · intro h
    refine ⟨h.distinct, fun action haction => ?_⟩
    cases action with
    | create path content =>
        simpa [CommitAction.path, CommitAction.isDelete] using h.created path content haction
    | delete path =>
        simpa [CommitAction.path, CommitAction.isDelete] using h.deleted path haction
  · intro h
    obtain ⟨hdistinct, hfits⟩ := h
    refine ⟨hdistinct, fun path content haction hpath => ?_, fun path haction => ?_⟩
    · cases (hfits (.create path content) haction).1 hpath
    · exact (hfits (.delete path) haction).2 rfl

theorem Consistent.fits (h : Consistent files actions) (haction : action ∈ actions) :
    action.path ∈ files ↔ action.isDelete = true :=
  (consistent_iff_fits.1 h).2 action haction

theorem Consistent.perm (h : Consistent files actions) (hperm : reordered.Perm actions) :
    Consistent files reordered where
  distinct := (hperm.map _).nodup_iff.2 h.distinct
  created path content haction := h.created path content (hperm.subset haction)
  deleted path haction := h.deleted path (hperm.subset haction)

theorem actionFault_eq_none_iff {seen : List String} :
    actionFault files seen action = none ↔
      action.path ∉ seen ∧ (action.path ∈ files ↔ action.isDelete = true) := by
  unfold actionFault
  by_cases hseen : action.path ∈ seen
  · simp [hseen]
  · rw [if_neg (by simpa using hseen)]
    cases action with
    | create path content => simpa [CommitAction.path, CommitAction.isDelete] using fun _ => hseen
    | delete path => simpa [CommitAction.path, CommitAction.isDelete] using fun _ => hseen

/-- A commit after actions on the paths `seen` is accepted if it is consistent and shares no path
with them. -/
theorem commitFault_eq_none_iff {seen : List String} :
    commitFault files seen actions = none ↔
      Consistent files actions ∧ ∀ action ∈ actions, action.path ∉ seen := by
  induction actions generalizing seen with
  | nil => simp [commitFault, consistent_iff_fits]
  | cons first rest ih =>
      have hunseen : (∀ action ∈ rest, action.path ∉ first.path :: seen) ↔
          first.path ∉ rest.map (·.path) ∧ ∀ action ∈ rest, action.path ∉ seen := by
        simp only [List.mem_cons, not_or, List.mem_map, not_exists, not_and, forall_and]
      rw [commitFault, Option.or_eq_none_iff, actionFault_eq_none_iff, ih, hunseen,
        consistent_iff_fits, consistent_iff_fits, List.map_cons, List.nodup_cons,
        List.forall_mem_cons, List.forall_mem_cons]
      constructor
      · rintro ⟨⟨hseen, hfits⟩, ⟨hdistinct, hrest⟩, hnew, hall⟩
        exact ⟨⟨⟨hnew, hdistinct⟩, hfits, hrest⟩, hseen, hall⟩
      · rintro ⟨⟨⟨hnew, hdistinct⟩, hfits, hrest⟩, hseen, hall⟩
        exact ⟨⟨hseen, hfits⟩, ⟨hdistinct, hrest⟩, hnew, hall⟩

/-! ## Carrying it out -/

theorem getElem?_applyAction (files : Table String) (action : CommitAction) (path : String) :
    (applyAction files action)[path]? =
      if action.path = path then action.content? else files[path]? := by
  by_cases h : action.path = path <;> cases action <;>
    simp_all [applyAction, CommitAction.path, CommitAction.content?, Std.ExtTreeMap.getElem?_insert,
      Std.ExtTreeMap.getElem?_erase]

theorem getElem?_foldl_applyAction_of_not_mem (h : path ∉ actions.map (·.path)) :
    (actions.foldl applyAction files)[path]? = files[path]? := by
  induction actions generalizing files with
  | nil => rfl
  | cons first rest ih =>
      rw [List.map_cons, List.mem_cons, not_or] at h
      rw [List.foldl_cons, ih h.2, getElem?_applyAction, if_neg (Ne.symm h.1)]

theorem getElem?_foldl_applyAction_of_mem (hdistinct : (actions.map (·.path)).Nodup)
    (hmem : action ∈ actions) :
    (actions.foldl applyAction files)[action.path]? = action.content? := by
  induction actions generalizing files with
  | nil => cases hmem
  | cons first rest ih =>
      rw [List.map_cons, List.nodup_cons] at hdistinct
      rw [List.foldl_cons]
      obtain rfl | hmem := List.mem_cons.1 hmem
      · rw [getElem?_foldl_applyAction_of_not_mem hdistinct.1, getElem?_applyAction, if_pos rfl]
      · exact ih hdistinct.2 hmem

/-- What a commit makes of the files. Nothing is said of the order of its actions. -/
structure CarriesOut (actions : List CommitAction) (before after : Table String) : Prop where
  created : ∀ path content, .create path content ∈ actions → after[path]? = some content
  deleted : ∀ path, .delete path ∈ actions → path ∉ after
  others : ∀ path, path ∉ actions.map (·.path) → after[path]? = before[path]?

theorem carriesOut_foldl (hdistinct : (actions.map (·.path)).Nodup) (files : Table String) :
    CarriesOut actions files (actions.foldl applyAction files) where
  created path content haction := getElem?_foldl_applyAction_of_mem hdistinct haction
  deleted path haction := by
    have hgone : (actions.foldl applyAction files)[path]? = none :=
      getElem?_foldl_applyAction_of_mem hdistinct haction
    simpa using hgone
  others path hpath := getElem?_foldl_applyAction_of_not_mem hpath

/-- The actions of a commit determine the files that it leaves. -/
theorem CarriesOut.unique (h : CarriesOut actions before files)
    (h' : CarriesOut reordered before after)
    (hsame : ∀ action, action ∈ reordered ↔ action ∈ actions) : after = files := by
  apply Std.ExtTreeMap.ext_getElem?
  intro path
  by_cases hpath : path ∈ actions.map (·.path)
  · obtain ⟨action, haction, rfl⟩ := List.mem_map.1 hpath
    cases action with
    | create path content =>
        exact (h'.created path content ((hsame _).2 haction)).trans
          (h.created path content haction).symm
    | delete path =>
        rw [CommitAction.path, Std.ExtTreeMap.getElem?_eq_none (h.deleted path haction),
          Std.ExtTreeMap.getElem?_eq_none (h'.deleted path ((hsame _).2 haction))]
  · rw [h.others path hpath, h'.others path]
    simpa only [List.mem_map, hsame] using hpath

/-! ## The call -/

variable {site : Site} {s t : State} {project : Project}

/-- A repository after a commit. -/
def Project.withCommit (project : Project) (branch : String) (files : Table String) : Project :=
  { project with files, commitBranches := project.commitBranches ++ [branch] }

/-- How a commit is answered that no failure awaits. -/
theorem runFrom_createCommit (hfound : s.projects[path]? = some project)
    (hquiet : s.failureOf (.createCommit path branch message actions) = none) :
    ((forge site).createCommit path branch message actions).runFrom s =
      match commitFault project.files [] actions with
      | some failure => (.error failure, s.record (.createCommit path branch message actions))
      | none => (.ok (), (s.record (.createCommit path branch message actions)).put path
          (project.withCommit branch (actions.foldl applyAction project.files))) := by
  change (answer _ _).runFrom s = _
  rw [answer, Act.runFrom_ofFunction, hquiet]
  dsimp only
  rw [createCommit, onProject, projects_record, hfound]
  dsimp only
  cases commitFault project.files [] actions <;> rfl

theorem runFrom_createCommit_of_consistent (hfound : s.projects[path]? = some project)
    (hquiet : s.failureOf (.createCommit path branch message actions) = none)
    (h : Consistent project.files actions) :
    ((forge site).createCommit path branch message actions).runFrom s =
      (.ok (), (s.record (.createCommit path branch message actions)).put path
        (project.withCommit branch (actions.foldl applyAction project.files))) := by
  rw [runFrom_createCommit hfound hquiet,
    commitFault_eq_none_iff.2 ⟨h, fun _ _ => List.not_mem_nil⟩]

theorem consistent_of_runFrom_createCommit (hfound : s.projects[path]? = some project)
    (hquiet : s.failureOf (.createCommit path branch message actions) = none)
    (hok : ((forge site).createCommit path branch message actions).runFrom s = (.ok (), t)) :
    Consistent project.files actions := by
  rw [runFrom_createCommit hfound hquiet] at hok
  cases hfault : commitFault project.files [] actions with
  | none => exact (commitFault_eq_none_iff.1 hfault).1
  | some failure => simp [hfault] at hok

/-- A commit on a repository, while no failure awaits it, is accepted exactly if its actions are
consistent. Then the files are those from before, without what is deleted and with what is created,
and the branch follows those of earlier commits; nothing else changes in any repository. The actions
may come in any order. -/
theorem createCommit_accepted_iff (site : Site) (hfound : s.projects[path]? = some project)
    (hquiet : s.failureOf (.createCommit path branch message actions) = none) :
    ((∃ t, ((forge site).createCommit path branch message actions).runFrom s = (.ok (), t)) ↔
      Consistent project.files actions) ∧
    ∀ t, ((forge site).createCommit path branch message actions).runFrom s = (.ok (), t) →
      ∃ files, CarriesOut actions project.files files ∧
        t.projects = s.projects.insert path { project with
          files
          commitBranches := project.commitBranches ++ [branch] } ∧
        ∀ reordered : List CommitAction, reordered.Perm actions →
          ∃ u, ((forge site).createCommit path branch message reordered).runFrom s = (.ok (), u) ∧
            u.projects = t.projects := by
  refine ⟨⟨fun hok => hok.elim fun t => consistent_of_runFrom_createCommit hfound hquiet,
    fun h => ⟨_, runFrom_createCommit_of_consistent hfound hquiet h⟩⟩, fun t hok => ?_⟩
  have h := consistent_of_runFrom_createCommit hfound hquiet hok
  rw [runFrom_createCommit_of_consistent hfound hquiet h] at hok
  obtain rfl := congrArg Prod.snd hok
  have hcarried := carriesOut_foldl h.distinct project.files
  refine ⟨_, hcarried, rfl, fun reordered hperm => ?_⟩
  -- a failure would await the reordered commit as well, as the log does not show the actions
  have hagain : s.failureOf (.createCommit path branch message reordered) = none := hquiet
  refine ⟨_, runFrom_createCommit_of_consistent hfound hagain (h.perm hperm), ?_⟩
  have hsame := hcarried.unique (carriesOut_foldl (h.perm hperm).distinct project.files)
    fun _ => hperm.mem_iff
  rw [projects_put, projects_put, projects_record, projects_record, hsame]

/-- One file goes, one comes and one stays; on a second branch, and in either order. -/
theorem createCommit_accepted_iff_twoActions :
    let site : Site := ⟨"memory://git.example", 20⟩
    let project : Project :=
      { repository := { id := 1, fullPath := "acme/r" }
        files := .ofList [("a.yml", "old"), ("c.yml", "mine")]
        commitBranches := ["main"] }
    let actions : List CommitAction := [.delete "a.yml", .create "b.yml" "new"]
    ∃ t u after,
      ((forge site).createCommit "acme/r" "trunk" "sync" actions).runFrom
        (State.put {} "acme/r" project) = (.ok (), t) ∧
      ((forge site).createCommit "acme/r" "trunk" "sync" actions.reverse).runFrom
        (State.put {} "acme/r" project) = (.ok (), u) ∧
      t.projects["acme/r"]? = some after ∧ u.projects = t.projects ∧
      after.commitBranches = ["main", "trunk"] ∧ "a.yml" ∉ after.files ∧
      after.files["b.yml"]? = some "new" ∧ after.files["c.yml"]? = some "mine" := by
  intro site project actions
  have hconsistent : Consistent project.files actions :=
    ⟨by decide, by simp [actions, project], by simp [actions, project]⟩
  have hquiet : (State.put {} "acme/r" project).failureOf
      (.createCommit "acme/r" "trunk" "sync" actions) = none := by decide +kernel
  obtain ⟨hiff, hafter⟩ :=
    createCommit_accepted_iff site (getElem?_put_self {} "acme/r" project) hquiet
  obtain ⟨t, hok⟩ := hiff.2 hconsistent
  obtain ⟨files, hcarried, hprojects, horder⟩ := hafter t hok
  obtain ⟨u, hreversed, hsame⟩ := horder actions.reverse actions.reverse_perm
  refine ⟨t, u, { project with files, commitBranches := ["main", "trunk"] }, hok, hreversed, ?_,
    hsame, rfl, hcarried.deleted "a.yml" (by simp [actions]),
    hcarried.created "b.yml" "new" (by simp [actions]), ?_⟩
  · rw [hprojects, Std.ExtTreeMap.getElem?_insert_self]
    rfl
  · dsimp only
    rw [hcarried.others "c.yml" (by decide)]
    decide +kernel

end Forge.Memory

end ForgeSync
