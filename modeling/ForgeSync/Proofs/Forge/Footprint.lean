import ForgeSync.Convergence.Operation
import ForgeSync.Proofs.Action.Calculus

/-!
# Footprints of operations

An operation on a declared repository makes calls of few shapes. Each footprint below names them;
a relation that holds along chains of changes and that every call of the footprint respects is
then respected by the whole operation, on any forge and however its calls end.
-/

namespace ForgeSync

open Calendar (Instant)

namespace Forge

variable {σ : Type}

/-- Every call of a set relates the state before it to the state after it. -/
def Respects (forge : Forge σ) (calls : Call → Prop) (R : σ → σ → Prop) : Prop :=
  ∀ call, calls call → Act.Moves R (Operation.performCall forge call)

theorem Respects.mono {forge : Forge σ} {calls fewer : Call → Prop} {R : σ → σ → Prop}
    (h : forge.Respects calls R) (hsub : ∀ call, fewer call → calls call) :
    forge.Respects fewer R :=
  fun call hcall => h call (hsub call hcall)

/-! ## The shapes of calls -/

/-- The calls that commit the template files of a descriptor. -/
def commitCalls (repo : Descriptor) : Call → Prop
  | .getProject path => path = repo.fullPath
  | .listTreePage path _ => path = repo.fullPath
  | .createCommit path _ _ _ => path = repo.fullPath
  | _ => False

/-- The calls that commit the template files of a descriptor, of which a commit follows the plan
against some tree. -/
def plannedCalls (repo : Descriptor) : Call → Prop
  | .createCommit path _ _ actions =>
    path = repo.fullPath ∧ ∃ present, actions = planActions repo.templateFiles present
  | call => commitCalls repo call

theorem commitCalls_of_planned {repo : Descriptor} {call : Call} (h : plannedCalls repo call) :
    commitCalls repo call := by
  cases call with
  | createCommit path branch message actions => exact h.1
  | _ => exact h

/-- The calls that create a repository with its deploy keys. -/
def creationCalls (repo : Descriptor) : Call → Prop
  | .createProject space name description =>
    space = repo.path ∧ name = repo.repoName ∧ description = repo.effectiveDisplayName
  | .addDeployKey path title key => path = repo.fullPath ∧ (title, key) ∈ repo.deployKeys.toList
  | _ => False

/-- The calls that bring deploy keys and description in line. -/
def updateCalls (repo : Descriptor) : Call → Prop
  | .listDeployKeys path => path = repo.fullPath
  | .addDeployKey path title key => path = repo.fullPath ∧ repo.deployKeys[title]? = some key
  | .deleteDeployKey path _ => path = repo.fullPath
  | .getProject path => path = repo.fullPath
  | .editDescription path description =>
    path = repo.fullPath ∧ description = repo.effectiveDisplayName
  | _ => False

/-- The calls that settle managed CI variables. -/
def variableCalls (path : String) (managed : List String) (wanted : List CiVariable) :
    Call → Prop
  | .deleteVariable at' key => at' = path ∧ key ∈ surplusNames managed wanted
  | .updateVariable at' v => at' = path ∧ v ∈ managedWanted managed wanted
  | .createVariable at' v => at' = path ∧ v ∈ managedWanted managed wanted
  | _ => False

/-- The calls that select an access token, or create one. -/
def tokenCalls (path : String) (request : NewAccessToken) : Call → Prop
  | .listAccessTokens at' => at' = path
  | .createAccessToken at' wanted => at' = path ∧ wanted = request
  | _ => False

/-- The calls that remove a repository as its policy says. -/
def removalCalls (repo : Descriptor) : Call → Prop
  | .deleteProject path => path = repo.fullPath ∧ repo.effectiveDeletionPolicy = .delete
  | .getProject path => path = repo.fullPath ∧ repo.effectiveDeletionPolicy = .archive
  | .archiveProject path => path = repo.fullPath ∧ repo.effectiveDeletionPolicy = .archive
  | _ => False

/-! ## Operations stay within their footprints -/

section Operations

variable {forge : Forge σ} {R : σ → σ → Prop} (hR : Act.Chains R)

include hR

theorem moves_walkTree {path : String} {page : Option String}
    (h : ∀ page, Act.Moves R (forge.listTreePage path page)) (budget : Nat) (seen : PathSet) :
    Act.Moves R (forge.walkTree path budget page seen) := by
  induction budget generalizing page seen with
  | zero => exact hR.moves_throw _
  | succ budget ih =>
      unfold walkTree
      apply hR.moves_bind (Act.moves_attempt.2 (h page))
      intro outcome
      cases outcome with
      | error failure =>
          dsimp only
          split
          · exact hR.moves_pure _
          · exact hR.moves_throw _
      | ok listed =>
          dsimp only
          split
          · exact hR.moves_pure _
          · exact ih _

theorem moves_fetchTree {path : String}
    (h : ∀ page, Act.Moves R (forge.listTreePage path page)) :
    Act.Moves R (forge.fetchTree path) :=
  hR.moves_bind hR.moves_get fun _ => moves_walkTree hR h _ _

theorem moves_commitTemplate_planned {repo : Descriptor}
    (h : forge.Respects (plannedCalls repo) R) : Act.Moves R (forge.commitTemplate repo) := by
  have hget := Act.moves_map.1 (h (.getProject repo.fullPath) rfl)
  have hlist := fun page => Act.moves_map.1 (h (.listTreePage repo.fullPath page) rfl)
  have hcommit := fun branch message present => Act.moves_map.1
    (h (.createCommit repo.fullPath branch message (planActions repo.templateFiles present))
      ⟨rfl, present, rfl⟩)
  unfold commitTemplate syncFiles
  split
  · exact hR.moves_pure _
  · apply hR.moves_bind hget
    intro remote
    refine hR.moves_bind ?_ fun _ => hR.moves_pure _
    apply hR.moves_bind (moves_fetchTree hR hlist)
    intro present
    dsimp only
    split
    · exact hR.moves_pure _
    · exact hR.moves_bind (hcommit _ _ _) fun _ => hR.moves_pure _

theorem moves_commitTemplate {repo : Descriptor} (h : forge.Respects (commitCalls repo) R) :
    Act.Moves R (forge.commitTemplate repo) :=
  moves_commitTemplate_planned hR (h.mono fun _ => commitCalls_of_planned)

theorem moves_addKey {path title : String} {key : DeployKey}
    (h : Act.Moves R (forge.addDeployKey path title key)) :
    Act.Moves R (forge.addKey path title key) := by
  apply hR.moves_bind (Act.moves_attempt.2 h)
  intro outcome
  cases outcome <;> exact hR.moves_pure _

theorem moves_createRepository {repo : Descriptor}
    (h : forge.Respects (creationCalls repo) R) :
    Act.Moves R (forge.createRepository repo) := by
  apply hR.moves_bind (Act.moves_map.1 (h (.createProject _ _ _) ⟨rfl, rfl, rfl⟩))
  intro _
  refine hR.moves_bind (hR.moves_mapM fun entry hentry => ?_) fun _ => hR.moves_ofExcept _
  exact moves_addKey hR (Act.moves_map.1 (h (.addDeployKey _ entry.1 entry.2) ⟨rfl, hentry⟩))

theorem moves_replaceKey {path title : String} {stale : Option UInt64} {key : DeployKey}
    (hadd : Act.Moves R (forge.addDeployKey path title key))
    (hdelete : ∀ id, Act.Moves R (forge.deleteDeployKey path id)) :
    Act.Moves R (forge.replaceKey path stale title key) := by
  unfold replaceKey
  cases stale with
  | none => exact moves_addKey hR hadd
  | some id =>
      apply hR.moves_bind (Act.moves_attempt.2 (hdelete id))
      intro outcome
      cases outcome with
      | error failure => exact hR.moves_pure _
      | ok _ => exact moves_addKey hR hadd

theorem moves_dropKey {path title : String} {id : UInt64}
    (hdelete : Act.Moves R (forge.deleteDeployKey path id)) :
    Act.Moves R (forge.dropKey path title id) := by
  apply hR.moves_bind (Act.moves_attempt.2 hdelete)
  intro outcome
  cases outcome with
  | ok _ => exact hR.moves_pure _
  | error failure =>
      dsimp only
      split <;> exact hR.moves_pure _

theorem moves_syncDeployKeys {repo : Descriptor} (h : forge.Respects (updateCalls repo) R) :
    Act.Moves R (forge.syncDeployKeys repo) := by
  have hdelete := fun id => Act.moves_map.1 (h (.deleteDeployKey repo.fullPath id) rfl)
  apply hR.moves_bind (Act.moves_map.1 (h (.listDeployKeys repo.fullPath) rfl))
  intro listing
  refine hR.moves_bind (hR.moves_mapM fun entry hentry => ?_) fun _ => ?_
  · have hwanted : repo.deployKeys[entry.1]? = some entry.2 := by
      have hmem := Std.ExtTreeMap.mem_toList_iff_getElem?_eq_some.1 hentry
      simp only [KeyDelta.between, getElem?_changedEntries] at hmem
      split at hmem
      · cases hmem
      · exact hmem
    exact moves_replaceKey hR
      (Act.moves_map.1 (h (.addDeployKey _ entry.1 entry.2) ⟨rfl, hwanted⟩)) hdelete
  · refine hR.moves_bind (hR.moves_mapM fun entry _ => moves_dropKey hR (hdelete entry.2))
      fun _ => ?_
    exact hR.moves_bind (hR.moves_ofExcept _) fun _ => hR.moves_pure _

theorem moves_syncDescription {repo : Descriptor}
    (hget : Act.Moves R (forge.getProject repo.fullPath))
    (hedit : Act.Moves R (forge.editDescription repo.fullPath repo.effectiveDisplayName)) :
    Act.Moves R (forge.syncDescription repo) := by
  apply hR.moves_bind hget
  intro remote
  cases remote with
  | none => exact hR.moves_throw _
  | some remote =>
      dsimp only
      split
      · exact hR.moves_pure _
      · exact hR.moves_bind hedit fun _ => hR.moves_pure _

theorem moves_updateRepository {repo : Descriptor} (h : forge.Respects (updateCalls repo) R) :
    Act.Moves R (forge.updateRepository repo) :=
  hR.moves_bind (moves_syncDeployKeys hR h) fun _ =>
    hR.moves_bind (moves_syncDescription hR
      (Act.moves_map.1 (h (.getProject repo.fullPath) rfl))
      (Act.moves_map.1 (h (.editDescription _ _) ⟨rfl, rfl⟩))) fun _ => hR.moves_pure _

theorem moves_reconcileVariables {path : String} {managed : List String}
    {wanted : List CiVariable} (h : forge.Respects (variableCalls path managed wanted) R) :
    Act.Moves R (forge.reconcileVariables path managed wanted) := by
  refine hR.moves_bind (hR.moves_mapM fun name hname => ?_) fun _ => ?_
  · refine hR.moves_bind (Act.moves_attempt.2
      (Act.moves_map.1 (h (.deleteVariable path name) ⟨rfl, hname⟩))) fun outcome => ?_
    cases outcome with
    | ok _ => exact hR.moves_pure _
    | error failure =>
        dsimp only
        split <;> exact hR.moves_pure _
  refine hR.moves_bind (hR.moves_mapM fun v hv => ?_) fun _ => ?_
  · refine hR.moves_bind (Act.moves_attempt.2
      (Act.moves_map.1 (h (.updateVariable path v) ⟨rfl, hv⟩))) fun outcome => ?_
    cases outcome with
    | ok _ => exact hR.moves_pure _
    | error failure =>
        dsimp only
        split
        · refine hR.moves_bind (Act.moves_attempt.2
            (Act.moves_map.1 (h (.createVariable path v) ⟨rfl, hv⟩))) fun outcome => ?_
          cases outcome <;> exact hR.moves_pure _
        · exact hR.moves_pure _
  exact hR.moves_bind (hR.moves_ofExcept _) fun _ => hR.moves_pure _

theorem moves_ensureAccessToken {now : Instant} {path name : String} {hint : Option UInt64}
    (h : forge.Respects (tokenCalls path (newToken name now)) R) :
    Act.Moves R (forge.ensureAccessToken now path name hint) := by
  apply hR.moves_bind (Act.moves_map.1 (h (.listAccessTokens path) rfl))
  intro tokens
  dsimp only
  split
  · exact hR.moves_pure _
  · refine hR.moves_bind (Act.moves_map.1 (h (.createAccessToken path _) ⟨rfl, rfl⟩))
      fun created => ?_
    cases created.token with
    | some secret => exact hR.moves_pure _
    | none => exact hR.moves_throw _

theorem moves_removeRepository {repo : Descriptor} (h : forge.Respects (removalCalls repo) R) :
    Act.Moves R (forge.removeRepository repo) := by
  unfold removeRepository
  cases hpolicy : repo.effectiveDeletionPolicy with
  | delete =>
      refine hR.moves_bind (Act.moves_attempt.2
        (Act.moves_map.1 (h (.deleteProject repo.fullPath) ⟨rfl, hpolicy⟩))) fun outcome => ?_
      cases outcome with
      | ok _ => exact hR.moves_pure _
      | error failure =>
          dsimp only
          split
          · exact hR.moves_pure _
          · exact hR.moves_throw _
  | archive =>
      refine hR.moves_bind (Act.moves_map.1 (h (.getProject repo.fullPath) ⟨rfl, hpolicy⟩))
        fun remote => ?_
      cases remote with
      | none => exact hR.moves_pure _
      | some remote =>
          dsimp only
          split
          · exact hR.moves_pure _
          · exact Act.moves_map.1 (h (.archiveProject repo.fullPath) ⟨rfl, hpolicy⟩)
  | retain => exact hR.moves_pure _
  | unknown => exact hR.moves_pure _

end Operations

end Forge

end ForgeSync
