import ForgeSync.Proofs.Memory.Effects

/-!
# Other identifiers for the same repository

What an operation leaves on the forge depends on the identifiers that were given before only in the
identifiers that it takes itself: from another last identifier it leaves the same repository, with
its own identifiers renamed. A secret goes with the identifier of its token.

Main statements: `Reachable.given`, by which a repository has no identifier that is still to come,
`renamed_preparedProject`, and `shifts_exchanged_first` and `shifts_exchanged_second` for two pieces
of work that change places.
-/

namespace ForgeSync.Forge.Memory

open Calendar (Instant)

/-! ## Renaming -/

section Renaming

variable (ρ : UInt64 → UInt64)

/-- A deploy key under another identifier. -/
def renamedKey (key : RemoteDeployKey) : RemoteDeployKey :=
  { key with id := ρ key.id }

/-- The secret of a token that got another identifier. -/
def renamedSecret (uid : UInt64) (secret : String) : String :=
  if ρ uid = uid then secret else secretOf (ρ uid)

/-- A token under another identifier. -/
def renamedToken (token : AccessTokenRecord) : AccessTokenRecord :=
  { token with uid := ρ token.uid, token := token.token.map (renamedSecret ρ token.uid) }

/-- A repository under other identifiers. -/
def Project.renamed (project : Project) : Project :=
  { project with
    repository := { project.repository with id := ρ project.repository.id }
    deployKeys := project.deployKeys.map (renamedKey ρ)
    tokens := project.tokens.map (renamedToken ρ) }

end Renaming

variable {ρ : UInt64 → UInt64}

theorem renamedKey_of_fixed {key : RemoteDeployKey} (h : ρ key.id = key.id) :
    renamedKey ρ key = key := by
  rw [renamedKey, h]

theorem map_renamedKey_of_fixed {keys : List RemoteDeployKey}
    (h : ∀ key ∈ keys, ρ key.id = key.id) : keys.map (renamedKey ρ) = keys :=
  (List.map_congr_left fun key hkey => renamedKey_of_fixed (h key hkey)).trans (List.map_id _)

theorem renamedToken_of_fixed {token : AccessTokenRecord} (h : ρ token.uid = token.uid) :
    renamedToken ρ token = token := by
  have hsecret : renamedSecret ρ token.uid = id := by
    funext secret
    rw [renamedSecret, if_pos h]
    rfl
  rw [renamedToken, h, hsecret, Option.map_id_fun, id]

theorem map_renamedToken_of_fixed {tokens : List AccessTokenRecord}
    (h : ∀ token ∈ tokens, ρ token.uid = token.uid) : tokens.map (renamedToken ρ) = tokens :=
  (List.map_congr_left fun token htoken => renamedToken_of_fixed (h token htoken)).trans
    (List.map_id _)

/-- The secret that a forge gives with an identifier goes with it. -/
theorem renamedSecret_secretOf (uid : UInt64) :
    renamedSecret ρ uid (secretOf uid) = secretOf (ρ uid) := by
  rw [renamedSecret]
  split
  · rename_i hfixed
    rw [hfixed]
  · rfl

theorem renamedToken_mintedToken (name : String) (now : Instant) (uid : UInt64) :
    renamedToken ρ (mintedToken name now uid) = mintedToken name now (ρ uid) := by
  simp only [renamedToken, mintedToken, Option.map_some, renamedSecret_secretOf]

/-- The identifiers in a repository. -/
def Project.ids (project : Project) : List UInt64 :=
  project.repository.id :: project.deployKeys.map (·.id) ++ project.tokens.map (·.uid)

theorem mem_ids {project : Project} {id : UInt64} :
    id ∈ project.ids ↔ id = project.repository.id ∨ (∃ key ∈ project.deployKeys, key.id = id) ∨
      ∃ token ∈ project.tokens, token.uid = id := by
  simp [Project.ids]

theorem Project.renamed_of_fixed {project : Project} (h : ∀ id ∈ project.ids, ρ id = id) :
    project.renamed ρ = project := by
  have hkeys := map_renamedKey_of_fixed fun key hkey =>
    h _ (mem_ids.2 (.inr (.inl ⟨key, hkey, rfl⟩)))
  have htokens := map_renamedToken_of_fixed fun token htoken =>
    h _ (mem_ids.2 (.inr (.inr ⟨token, htoken, rfl⟩)))
  rw [renamed, hkeys, htokens, h _ (mem_ids.2 (.inl rfl))]

/-! ## Identifiers that follow -/

/-- The renaming takes the identifiers that follow one to those that follow the other. -/
def Shifts (ρ : UInt64 → UInt64) (last last' : UInt64) (n : Nat) : Prop :=
  ∀ i < n, ρ (last + 1 + UInt64.ofNat i) = last' + 1 + UInt64.ofNat i

variable {last last' : UInt64} {m n : Nat}

theorem Shifts.mono (h : Shifts ρ last last' n) (hle : m ≤ n) : Shifts ρ last last' m :=
  fun i hi => h i (Nat.lt_of_lt_of_le hi hle)

theorem Shifts.next (h : Shifts ρ last last' n) (hn : 0 < n) : ρ (last + 1) = last' + 1 := by
  simpa using h 0 hn

theorem Shifts.drop (h : Shifts ρ last last' (m + n)) :
    Shifts ρ (last + UInt64.ofNat m) (last' + UInt64.ofNat m) n := by
  intro i hi
  have hall := h (m + i) (by omega)
  rw [UInt64.ofNat_add] at hall
  have hmove : ∀ a : UInt64, a + UInt64.ofNat m + 1 + UInt64.ofNat i =
      a + 1 + (UInt64.ofNat m + UInt64.ofNat i) := fun a => by
    rw [UInt64.add_assoc a, UInt64.add_comm (UInt64.ofNat m) 1, ← UInt64.add_assoc a,
      UInt64.add_assoc (a + 1)]
  rw [hmove, hmove, hall]

theorem Shifts.final (h : Shifts ρ last last' n) (hn : 0 < n) :
    ρ (last + UInt64.ofNat n) = last' + UInt64.ofNat n := by
  obtain ⟨m, rfl⟩ := Nat.exists_eq_succ_of_ne_zero (Nat.pos_iff_ne_zero.1 hn)
  have hmove : ∀ a : UInt64, a + UInt64.ofNat (m + 1) = a + 1 + UInt64.ofNat m := fun a => by
    rw [Nat.add_comm, UInt64.ofNat_add, ← UInt64.add_assoc]
    rfl
  rw [hmove, hmove, h m m.lt_succ_self]

theorem map_renamedKey_numbered (entries : List (String × DeployKey))
    (h : Shifts ρ last last' entries.length) :
    (numbered last entries).map (renamedKey ρ) = numbered last' entries := by
  induction entries generalizing last last' with
  | nil => rfl
  | cons entry rest ih =>
      obtain ⟨title, key⟩ := entry
      have hone : UInt64.ofNat 1 = 1 := rfl
      rw [List.length_cons, Nat.add_comm] at h
      have htail := h.drop
      rw [hone] at htail
      rw [numbered, numbered, List.map_cons, ih htail, renamedKey, h.next (by omega)]

/-! ## Identifiers in another order -/

/-- The identifiers as two pieces of work take them after `last`, when the one that takes `n` comes
before the one that takes `m`. -/
def exchanged (last : UInt64) (m n : Nat) (id : UInt64) : UInt64 :=
  if last.toNat < id.toNat ∧ id.toNat ≤ last.toNat + m then id + UInt64.ofNat n
  else if last.toNat + m < id.toNat ∧ id.toNat ≤ last.toNat + m + n then id - UInt64.ofNat m
  else id

theorem toNat_exchanged (hroom : last.toNat + m + n < 2 ^ 64) (id : UInt64) :
    (exchanged last m n id).toNat =
      if last.toNat < id.toNat ∧ id.toNat ≤ last.toNat + m then id.toNat + n
      else if last.toNat + m < id.toNat ∧ id.toNat ≤ last.toNat + m + n then id.toNat - m
      else id.toNat := by
  unfold exchanged
  split
  · exact toNat_add_ofNat (by omega)
  · split
    · have hm : (UInt64.ofNat m).toNat = m :=
        UInt64.toNat_ofNat_of_lt' (by change m < 2 ^ 64; omega)
      rw [UInt64.toNat_sub_of_le _ _ (by rw [UInt64.le_iff_toNat_le]; omega), hm]
    · rfl

theorem exchanged_injective (hroom : last.toNat + m + n < 2 ^ 64) :
    Function.Injective (exchanged last m n) := by
  intro id id' hsame
  have hnat := congrArg UInt64.toNat hsame
  rw [toNat_exchanged hroom, toNat_exchanged hroom] at hnat
  apply UInt64.toNat_inj.1
  split at hnat <;> split at hnat <;> grind

theorem exchanged_of_le {id : UInt64} (h : id ≤ last) : exchanged last m n id = id := by
  rw [UInt64.le_iff_toNat_le] at h
  rw [exchanged, if_neg (by omega), if_neg (by omega)]

theorem exchanged_of_lt {id : UInt64} (h : last.toNat + m + n < id.toNat) :
    exchanged last m n id = id := by
  rw [exchanged, if_neg (by omega), if_neg (by omega)]

theorem toNat_following (hroom : last.toNat + n < 2 ^ 64) {i : Nat} (hi : i < n) :
    (last + 1 + UInt64.ofNat i).toNat = last.toNat + (i + 1) := by
  have hone : last + 1 + UInt64.ofNat i = last + UInt64.ofNat (i + 1) := by
    rw [UInt64.add_assoc, Nat.add_comm, UInt64.ofNat_add]
    rfl
  rw [hone, toNat_add_ofNat (by omega)]

/-- What comes first takes its identifiers behind those of the other. -/
theorem shifts_exchanged_first (hroom : last.toNat + m + n < 2 ^ 64) :
    Shifts (exchanged last m n) last (last + UInt64.ofNat n) m := by
  intro i hi
  have hlast : (last + UInt64.ofNat n).toNat = last.toNat + n := toNat_add_ofNat (by omega)
  apply UInt64.toNat_inj.1
  rw [toNat_exchanged hroom, toNat_following (by omega) hi, toNat_following (by omega) hi, hlast]
  grind

/-- What comes second takes its identifiers before those of the other. -/
theorem shifts_exchanged_second (hroom : last.toNat + m + n < 2 ^ 64) :
    Shifts (exchanged last m n) (last + UInt64.ofNat m) last n := by
  intro i hi
  have hlast : (last + UInt64.ofNat m).toNat = last.toNat + m := toNat_add_ofNat (by omega)
  apply UInt64.toNat_inj.1
  rw [toNat_exchanged hroom, toNat_following (by omega) hi, toNat_following (by omega) hi, hlast]
  grind

/-! ## Identifiers that were given -/

variable {α : Type} {s t : State} {site : Site} {path : String} {project : Project}

/-- No repository has an identifier that is still to come. -/
def Given (s : State) : Prop :=
  ∀ (path : String) project, s.projects[path]? = some project →
    ∀ id ∈ project.ids, id ≤ s.lastId

/-- From one state to the next a repository gets no identifier that is still to come. -/
def Takes (s t : State) : Prop :=
  ∀ (path : String) after, t.projects[path]? = some after → ∀ id ∈ after.ids,
    (∃ before, s.projects[path]? = some before ∧ id ∈ before.ids) ∨ id ≤ t.lastId

theorem Given.of_takes (h : Given s) (htakes : Takes s t) (hle : s.lastId ≤ t.lastId) :
    Given t := by
  intro path project hproject id hid
  rcases htakes path project hproject id hid with ⟨before, hbefore, hold⟩ | hnew
  · exact UInt64.le_trans (h path before hbefore id hold) hle
  · exact hnew

theorem takes_of_projects (h : t.projects = s.projects) : Takes s t :=
  fun _ after hafter _ hid => .inl ⟨after, by rwa [← h], hid⟩

theorem takes_put {u : State} {after : Project} (hprojects : u.projects = s.projects)
    (hafter : ∀ id ∈ after.ids,
      (∃ before, s.projects[path]? = some before ∧ id ∈ before.ids) ∨ id ≤ u.lastId) :
    Takes s (u.put path after) := by
  intro other next hnext id hid
  rw [projects_put, Std.ExtTreeMap.getElem?_insert, hprojects] at hnext
  split at hnext
  · rename_i heq
    obtain rfl := Std.LawfulEqCmp.eq_of_compare heq
    obtain rfl := Option.some.inj hnext
    exact hafter id hid
  · exact .inl ⟨next, hnext, hid⟩

/-- A body that adds no identifier that is still to come. -/
theorem takes_onProject {u : State} (hprojects : u.projects = s.projects)
    {body : Project → Except Failure (α × Project)}
    (hbody : ∀ project a after, body project = .ok (a, after) →
      ∀ id ∈ after.ids, id ∈ project.ids ∨ id ≤ u.lastId) :
    Takes s (Memory.onProject path body u).2 := by
  unfold Memory.onProject
  split
  · exact takes_of_projects hprojects
  · rename_i project hproject
    rw [hprojects] at hproject
    split
    · exact takes_of_projects hprojects
    · rename_i a after hafter
      exact takes_put hprojects fun id hid =>
        (hbody project a after hafter id hid).imp_left fun hold => ⟨project, hproject, hold⟩

theorem takes_modifyProject {u : State} (hprojects : u.projects = s.projects)
    {f : Project → Project} (hf : ∀ project, ∀ id ∈ (f project).ids,
      id ∈ project.ids ∨ id ≤ u.lastId) : Takes s (u.modifyProject path f) := by
  unfold State.modifyProject
  split
  · exact takes_of_projects hprojects
  · rename_i project hproject
    rw [hprojects] at hproject
    exact takes_put hprojects fun id hid =>
      (hf project id hid).imp_left fun hold => ⟨project, hproject, hold⟩

theorem takes_answer {call : Call} {f : α → Datum} {body : State → Except Failure α × State}
    (hbody : Takes s (body (s.record call)).2) :
    Takes s ((f <$> answer call body).runFrom s).2 := by
  rw [Act.runFrom_map, answer, Act.runFrom_ofFunction]
  dsimp only
  cases s.failureOf call with
  | some message => exact takes_of_projects rfl
  | none => exact hbody

theorem le_lastId_of_mem_newProject {id last : UInt64} {description : String}
    (hid : id ∈ (newProject site last path description).ids) : id ≤ last := by
  obtain rfl : id = last := by simpa [Project.ids, newProject] using hid
  exact UInt64.le_refl _

theorem mem_ids_add_key {id last : UInt64} {key : RemoteDeployKey} (hlast : key.id ≤ last)
    (hid : id ∈ { project with deployKeys := project.deployKeys ++ [key] : Project }.ids) :
    id ∈ project.ids ∨ id ≤ last := by
  simp only [mem_ids, List.mem_append, List.mem_singleton] at hid ⊢
  grind

theorem mem_ids_add_token {id last : UInt64} {token : AccessTokenRecord}
    (hlast : token.uid ≤ last)
    (hid : id ∈ { project with tokens := project.tokens ++ [token] : Project }.ids) :
    id ∈ project.ids ∨ id ≤ last := by
  simp only [mem_ids, List.mem_append, List.mem_singleton] at hid ⊢
  grind

theorem takes_performCall (call : Call) :
    Takes s ((Operation.performCall (forge site) call).runFrom s).2 := by
  cases call <;> refine takes_answer ?_
  case getProject => exact takes_of_projects rfl
  case createProject space name description =>
      unfold createProject
      dsimp only
      split
      · exact takes_of_projects rfl
      · exact takes_put rfl fun id hid => .inr (le_lastId_of_mem_newProject hid)
  case deleteProject path =>
      unfold deleteProject
      split
      · intro other after hafter id hid
        dsimp only at hafter
        rw [Std.ExtTreeMap.getElem?_erase] at hafter
        split at hafter
        · cases hafter
        · exact .inl ⟨after, hafter, hid⟩
      · exact takes_of_projects rfl
  case addDeployKey path title key =>
      refine takes_onProject rfl fun project a after hafter id hid => ?_
      cases hafter
      exact mem_ids_add_key (UInt64.le_refl _) hid
  case createAccessToken path request =>
      refine takes_onProject rfl fun project a after hafter id hid => ?_
      cases hafter
      exact mem_ids_add_token (UInt64.le_refl _) hid
  case deleteDeployKey path id =>
      refine takes_onProject rfl fun project a after hafter id hid => ?_
      dsimp only at hafter
      split at hafter <;> cases hafter
      rw [mem_ids] at hid ⊢
      exact .inl (hid.imp_right (.imp_left (.imp fun key hkey =>
        ⟨(List.mem_filter.1 hkey.1).1, hkey.2⟩)))
  case listTreePage path page =>
      refine takes_onProject rfl fun project a after hafter id hid => ?_
      cases hpage : treePage site.pageSize page project with
      | error failure => simp [hpage, Except.map] at hafter
      | ok listed =>
          simp only [hpage, Except.map, Except.ok.injEq, Prod.mk.injEq] at hafter
          exact .inl (hafter.2 ▸ hid)
  all_goals
    refine takes_onProject rfl fun project a after hafter id hid => .inl ?_
    first
      | cases hafter
        exact hid
      | split at hafter <;> cases hafter
        exact hid

theorem takes_play (site : Site) (s : State) (deed : Deed) : Takes s (s.play site deed) := by
  cases deed with
  | seedProject path =>
      exact takes_put rfl fun id hid => .inr (le_lastId_of_mem_newProject hid)
  | seedFile path file content =>
      exact takes_modifyProject rfl fun project id hid => .inl hid
  | seedDeployKey path title key canPush =>
      have htakes : Takes s (s.takeId.modifyProject path fun p => { p with deployKeys :=
          p.deployKeys ++ [{ id := s.takeId.lastId, title, key, canPush }] }) :=
        takes_modifyProject rfl fun project id hid => mem_ids_add_key (UInt64.le_refl _) hid
      exact htakes
  | seedVariable path v => exact takes_modifyProject rfl fun project id hid => .inl hid
  | seedToken path token =>
      have htakes : Takes s ({ s with lastId := max s.lastId token.uid }.modifyProject path
          fun p => { p with tokens := p.tokens ++ [token] }) :=
        takes_modifyProject rfl fun project id hid => mem_ids_add_token (le_raised _ _).2 hid
      exact htakes
  | failOn | clearFailures | clearCalls => exact takes_of_projects rfl
  | call c => exact takes_performCall c

/-- A repository has no identifier that is still to come. -/
theorem Reachable.given (h : Reachable site s) : Given s := by
  induction h with
  | start => exact fun _ _ hproject => by simp at hproject
  | step deed _ hle ih => exact ih.of_takes (takes_play site _ deed) hle

/-! ## Repositories that a pass prepares -/

/-- The repository as it is before the end of the work on it: brought in line, or created. -/
def preparedProject (site : Site) (repo : Descriptor) (last : UInt64) : Option Project → Project
  | some project =>
    described repo { committed repo project with
      deployKeys := updatedKeys repo last project.deployKeys }
  | none => committed repo (createdProject site repo last)

/-- How many identifiers are taken until then. -/
def preparedCost (repo : Descriptor) : Option Project → Nat
  | some project => (keyDelta repo project.deployKeys).add.toList.length
  | none => 1 + repo.deployKeys.size

theorem renamed_committed (repo : Descriptor) (project : Project) :
    (committed repo project).renamed ρ = committed repo (project.renamed ρ) := by
  unfold committed Project.renamed
  by_cases hplan : filePlan repo.templateFiles project.files = []
  · simp only [if_pos hplan]
  · simp only [if_neg hplan]

theorem map_renamedKey_updatedKeys {repo : Descriptor} {listing : List RemoteDeployKey}
    (hfixed : ∀ key ∈ listing, ρ key.id = key.id)
    (hshifts : Shifts ρ last last' (keyDelta repo listing).add.toList.length) :
    (updatedKeys repo last listing).map (renamedKey ρ) = updatedKeys repo last' listing := by
  have hkept : (keptKeys repo listing).map (renamedKey ρ) = keptKeys repo listing :=
    map_renamedKey_of_fixed fun key hkey => hfixed key (List.mem_filter.1 hkey).1
  rw [updatedKeys, List.map_append, hkept, map_renamedKey_numbered _ hshifts, updatedKeys]

/-- From another last identifier the work comes to the same repository under other identifiers. -/
theorem renamed_preparedProject (site : Site) {repo : Descriptor} {present : Option Project}
    (hfixed : ∀ project, present = some project → ∀ id ∈ project.ids, ρ id = id)
    (hshifts : Shifts ρ last last' (preparedCost repo present)) :
    (preparedProject site repo last present).renamed ρ =
      preparedProject site repo last' present := by
  cases present with
  | none =>
      have hcreated : (createdProject site repo last).renamed ρ =
          createdProject site repo last' := by
        rw [preparedCost, ← Std.ExtTreeMap.length_toList] at hshifts
        have hkeys := map_renamedKey_numbered _ hshifts.drop
        have hone : UInt64.ofNat 1 = 1 := rfl
        rw [hone] at hkeys
        have hid := hshifts.next (by omega)
        simp only [Project.renamed, createdProject, newProject, hkeys, hid, List.map_nil]
      rw [preparedProject, renamed_committed, hcreated, preparedProject]
  | some project =>
      have hfixed := hfixed project rfl
      have hkeys := map_renamedKey_updatedKeys
        (fun key hkey => hfixed _ (mem_ids.2 (.inr (.inl ⟨key, hkey, rfl⟩)))) hshifts
      have htokens : project.tokens.map (renamedToken ρ) = project.tokens :=
        map_renamedToken_of_fixed fun token htoken =>
          hfixed _ (mem_ids.2 (.inr (.inr ⟨token, htoken, rfl⟩)))
      have hid := hfixed _ (mem_ids.2 (.inl rfl))
      simp only [preparedProject, described, Project.renamed, hkeys, repository_committed,
        tokens_committed, htokens, hid]

end ForgeSync.Forge.Memory
