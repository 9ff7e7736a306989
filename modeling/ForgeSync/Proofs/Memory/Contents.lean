import ForgeSync.Proofs.Memory.Calls
import ForgeSync.Proofs.Memory.Tokens
import ForgeSync.Proofs.Memory.Settlement

/-!
# Variables and tokens on any forge

What operations make of the CI variables and the access tokens of a repository. Neither has an
identifier that a repository could hold twice to its harm, so unlike for deploy keys nothing is
asked of the state: the repository may even be missing, as long as the operation succeeds.

Main statements: `respects_sameVariables`, `variables_createRepository`,
`variables_reconcileVariables` and `ends_ensureAccessToken`.
-/

namespace ForgeSync.Forge.Memory

open Calendar (Instant)

variable {α β : Type} {site : Site} {path : String} {s : State}

/-! ## Calls that leave variables alone -/

/-- The CI variables of the repository at a path, if there is one. -/
def State.variables (s : State) (path : String) : Option (Table CiVariable) :=
  s.projects[path]?.map (·.ciVariables)

theorem variables_put (s : State) (path : String) (project : Project) :
    (s.put path project).variables path = some project.ciVariables := by
  rw [State.variables, getElem?_put_self, Option.map_some]

theorem variables_eq_none {path : String} (h : path ∉ s.projects) : s.variables path = none := by
  rw [State.variables, Std.ExtTreeMap.getElem?_eq_none h, Option.map_none]

/-- The repository at a path has the same variables, or there is none before and after. -/
def SameVariables (path : String) (before after : State) : Prop :=
  after.variables path = before.variables path

theorem sameVariables_chains (path : String) : Act.Chains (SameVariables path) :=
  ⟨fun _ => rfl, fun h h' => h'.trans h⟩

theorem variables_onProject {at' : String} {body : Project → Except Failure (α × Project)}
    (h : ∀ project a after, body project = .ok (a, after) →
      after.ciVariables = project.ciVariables) (s : State) :
    SameVariables path s (onProject at' body s).2 := by
  unfold onProject
  split
  · rfl
  · rename_i project hproject
    split
    · rfl
    · rename_i a after hbody
      unfold SameVariables State.variables
      rw [projects_put, Std.ExtTreeMap.getElem?_insert]
      split
      · rename_i heq
        rw [← Std.LawfulEqCmp.eq_of_compare heq, hproject, Option.map_some, Option.map_some,
          h project a after hbody]
      · rfl

/-- The calls that can change which variables there are at a path. -/
def TouchesVariables : Call → Prop
  | .createProject .. | .deleteProject .. | .updateVariable .. | .createVariable ..
  | .deleteVariable .. => True
  | _ => False

/-- All calls but a few leave the variables as they are. -/
theorem respects_sameVariables (site : Site) (path : String) :
    (forge site).Respects (fun call => ¬ TouchesVariables call) (SameVariables path) := by
  intro call hcall
  cases call <;>
    refine Act.moves_map.2 (moves_answer (sameVariables_chains path) (fun _ => rfl) fun s => ?_)
  case getProject => rfl
  case createProject | deleteProject | updateVariable | createVariable | deleteVariable =>
    exact (hcall trivial).elim
  case listTreePage =>
    refine variables_onProject (fun project a after hbody => ?_) (s.checkPosition _ _)
    cases hpage : treePage site.pageSize _ project <;> rw [hpage] at hbody <;> cases hbody
    rfl
  case deleteDeployKey =>
    exact variables_onProject (fun project a after hbody => by
      dsimp only at hbody
      split at hbody <;> cases hbody
      rfl) s
  case createCommit =>
    exact variables_onProject (fun project a after hbody => by
      split at hbody <;> cases hbody
      rfl) s
  case addDeployKey | createAccessToken =>
    exact variables_onProject
      (fun project a after hbody => by cases hbody; rfl) s.takeId
  all_goals exact variables_onProject (fun project a after hbody => by cases hbody; rfl) s

/-! ## Creation -/

theorem variables_createProject {space name description : String}
    (habsent : Descriptor.joinPath space name ∉ s.projects) :
    ((forge site).createProject space name description).Ends s
      (fun _ after => after.variables (Descriptor.joinPath space name) = some ∅)
      fun _ _ => True := by
  apply ends_answer fun _ _ => trivial
  unfold Act.Ends createProject
  simp [habsent, variables_put, newProject]

/-- A repository is created without variables. -/
theorem variables_createRepository {repo : Descriptor} (habsent : repo.fullPath ∉ s.projects) :
    ((forge site).createRepository repo).Ends s
      (fun _ after => after.variables repo.fullPath = some ∅) fun _ _ => True := by
  have hkeys : Act.Moves (SameVariables repo.fullPath)
      (repo.deployKeys.toList.mapM fun entry =>
        (forge site).addKey repo.fullPath entry.1 entry.2) := by
    refine (sameVariables_chains _).moves_mapM fun entry _ => ?_
    exact Forge.moves_addKey (sameVariables_chains _) (Act.moves_map.1
      (respects_sameVariables site repo.fullPath (.addDeployKey _ entry.1 entry.2) id))
  unfold Forge.createRepository
  apply (variables_createProject habsent).bind
  intro _ t ht
  rw [Act.ends_bind]
  refine (hkeys.ends t).mono (fun outcomes u hu => ?_) fun _ _ _ => trivial
  cases Failure.ofBatch "deploy keys" repo.deployKeys.size
      (outcomes.filterMap KeyOutcome.error?) with
  | ok _ => exact hu.trans ht
  | error failure => trivial

/-! ## Settlement -/

/-- A settlement that does not fail leaves every managed name as it is wanted. -/
theorem variables_reconcileVariables (managed : List String) (wanted : List CiVariable) :
    ((forge site).reconcileVariables path managed wanted).Ends s
      (fun _ after => after.variables path = (s.variables path).map (settled managed wanted))
      fun _ _ => True := by
  cases hproject : s.projects[path]? with
  | none =>
      -- no call brings the repository
      have habsent : path ∉ s.projects := by
        rw [Std.ExtTreeMap.mem_iff_isSome_getElem?, hproject]
        simp
      have haway : Act.Moves (StaysAway path)
          ((forge site).reconcileVariables path managed wanted) :=
        moves_reconcileVariables (staysAway_chains path)
          ((respects_staysAway site path).mono fun call hcall space name description hcreates => by
            rw [hcreates] at hcall
            exact hcall)
      refine (haway.ends s).mono (fun _ t ht => ?_) fun _ _ _ => trivial
      rw [variables_eq_none habsent, variables_eq_none (mt ht habsent), Option.map_none]
  | some project =>
      refine (ends_reconcileVariables hproject managed wanted).mono (fun _ t hend => ?_)
        fun _ _ _ => trivial
      obtain ⟨hnone, vars, hsettles, -⟩ := hend
      rw [State.variables, hsettles.resets.here, State.variables, hproject,
        hsettles.eq_settled hnone]
      rfl

/-! ## Tokens -/

/-- The access tokens of the repository at a path, if there is one. -/
def State.tokens (s : State) (path : String) : Option (List AccessTokenRecord) :=
  s.projects[path]?.map (·.tokens)

variable {now : Instant}

theorem ends_listAccessTokens :
    ((forge site).listAccessTokens path).Ends s
      (fun listed after => ∃ tokens, after.tokens path = some tokens ∧
        listed = tokens.map fun t => { t with token := none })
      fun _ _ => True := by
  apply ends_answer fun _ _ => trivial
  unfold look
  unfold Act.Ends onProject
  rw [Act.runFrom_ofFunction, projects_record]
  cases hproject : s.projects[path]? with
  | none => trivial
  | some project => exact ⟨project.tokens, by simp [State.tokens], rfl⟩

theorem ends_createAccessToken {tokens : List AccessTokenRecord}
    (htokens : s.tokens path = some tokens) (request : NewAccessToken) :
    ((forge site).createAccessToken path request).Ends s
      (fun token after => after.tokens path = some (tokens ++ [token]) ∧ token.active = true ∧
        token.revoked = false ∧ token.expiresAt = request.expiresAt ∧ token.name = request.name)
      fun _ _ => True := by
  apply ends_answer fun _ _ => trivial
  unfold Act.Ends createAccessToken onProject
  rw [Act.runFrom_ofFunction]
  obtain ⟨project, hproject, rfl⟩ := Option.map_eq_some_iff.1 htokens
  simp [hproject, State.tokens]

/-- A remembered token that was not usable before another one came is that other one. -/
theorem uid_eq_of_chosen_append {tokens : List AccessTokenRecord} {uid : UInt64}
    {token found : AccessTokenRecord} (hnone : chosen now tokens (some uid) = none)
    (hfound : chosen now (tokens ++ [token]) (some uid) = some found)
    (huid : found.uid = uid) : token.uid = uid := by
  obtain ⟨other, hmem, hsuits, hother⟩ := suits_of_chosen hfound
  rcases List.mem_append.1 hmem with hold | hnew
  · exact absurd hsuits (chosen_eq_none_iff.1 hnone other hold)
  · obtain rfl := List.mem_singleton.1 hnew
    exact hother.trans huid

/-- The granted token is the one that was remembered exactly if the repository has by then a usable
token under the remembered identifier. -/
theorem ends_ensureAccessToken (name : String) (hint : Option UInt64) :
    ((forge site).ensureAccessToken now path name hint).Ends s
      (fun grant after => ∃ tokens, after.tokens path = some tokens ∧
        (hint = some grant.uid ↔ ∃ uid token, hint = some uid ∧
          chosen now tokens hint = some token ∧ token.uid = uid))
      fun _ _ => True := by
  unfold Forge.ensureAccessToken
  apply ends_listAccessTokens.bind
  intro listed t hlisted
  obtain ⟨tokens, htokens, rfl⟩ := hlisted
  dsimp only
  rw [selectToken_listed]
  cases hchosen : chosen now tokens hint with
  | some token =>
      refine ⟨tokens, htokens, ?_⟩
      simp [hchosen]
  | none =>
      apply (ends_createAccessToken htokens _).bind
      intro token u hcreated
      obtain ⟨hafter, hactive, hrevoked, hexpires, -⟩ := hcreated
      have hlasts : token.Lasts now :=
        ⟨hactive, hrevoked, hexpires ▸ now.addDays_lt_addDays (by decide)⟩
      cases token.token with
      | none => trivial
      | some secret =>
          refine ⟨_, hafter, fun hhint => ?_, fun hfound => ?_⟩
          · obtain ⟨found, hfound, huid⟩ :=
              chosen_of_mem (List.mem_append_right tokens List.mem_cons_self) hlasts
            exact ⟨_, found, hhint, hhint ▸ hfound, huid⟩
          · obtain ⟨uid, found, rfl, hfound, rfl⟩ := hfound
            exact congrArg some (uid_eq_of_chosen_append hchosen hfound rfl).symm

end ForgeSync.Forge.Memory
