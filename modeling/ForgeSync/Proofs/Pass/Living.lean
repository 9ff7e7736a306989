import ForgeSync.Proofs.Memory.Keys
import ForgeSync.Proofs.Memory.Settlement
import ForgeSync.Proofs.Pass.Aim
import ForgeSync.Proofs.Pass.Storing

/-!
# The work on a living repository

How the work of a pass on a living object ends on the forge in memory. Either it reaches its aim,
with the wanted deploy keys and a status that finds nothing to do the next time, or a failure
awaited a call and the aim is where it was.

Main statement: `endsOn_fill`.
-/

namespace ForgeSync

open Calendar (Instant)
open Forge.Memory

/-! ## Operations of a pass on a repository -/

namespace Pass

variable {α : Type} {path : String} {n : Nat} {p : Pass State} {onError : Project → Prop}

/-- An operation of a pass on a repository of its forge. -/
abbrev EndsOn (path : String) (n : Nat) (act : Act (Pass State) α) (p : Pass State)
    (onOk : α → Project → Pass State → Prop) (onError : Project → Prop) : Prop :=
  EndsVia (fun q : Pass State => q.world.backend) path n act p onOk onError

theorem endsOn_pure {project : Project} {onOk : α → Project → Pass State → Prop}
    (h : Hosts path project p.world.backend) {a : α} (hok : onOk a project p) :
    EndsOn path n (pure a) p onOk onError :=
  ⟨project, h, .refl n _, hok⟩

/-- An operation on the forge changes nothing else. -/
theorem endsOn_onBackend {act : Act State α} {onOk : α → Project → State → Prop}
    (h : Forge.Memory.EndsOn path n act p.world.backend onOk onError) :
    EndsOn path n (act.within onBackend) p
      (fun a project q => onOk a project q.world.backend ∧ q.world.faults = p.world.faults ∧
        q.object = p.object)
      onError := by
  unfold EndsOn EndsVia
  rw [Act.ends_within]
  refine Act.Ends.mono h ?_ fun _ _ hend => hend
  intro a t hend
  obtain ⟨project, hhosts, hspends, hend⟩ := hend
  exact ⟨project, hhosts, hspends, hend, rfl, rfl⟩

theorem endsOn_mapStatus {project : Project} (h : Hosts path project p.world.backend)
    (f : RepoStatus → RepoStatus)
    {onOk : Unit → Project → Pass State → Prop}
    (hok : onOk () project { p with object := p.object.mapStatus f }) :
    EndsOn path n (modifyObject (·.mapStatus f)) p onOk onError :=
  ⟨project, h, .refl n _, hok⟩

end Pass

namespace Convergence

variable {c : Convergence State} {site : Site} {repo : Descriptor} {connection : Connection}
  {p : Pass State} {project : Project}

/-! ## Recorded failures -/

/-- Recording a failure leaves the forge alone. -/
theorem ends_failWith_backend {α : Type} (cause : Failure) (p : Pass State) :
    (failWith cause : Act (Pass State) α).Ends p (fun _ _ => False)
      fun _ q => q.world.backend = p.world.backend := by
  unfold failWith
  simp only [Pass.modifyObject, Act.ends_bind, Act.ends_modify, Act.ends_get, Act.ends_attempt,
    Act.ends_within]
  unfold Act.Ends World.updateStatus World.guarded
  rw [Act.runFrom_ofFunction]
  dsimp only [Pass.onWorld]
  cases p.world.faults.updateStatus with
  | some failure => rfl
  | none =>
      dsimp only
      split <;> rename_i hrun <;> obtain ⟨-, rfl⟩ := Prod.mk.inj hrun <;> rfl

/-- An action on the forge that succeeds changes nothing else, and what is recorded of a failure
leaves the forge alone. -/
theorem ends_recording_backend {act : Act State Unit} {onOk : State → Prop} {onError : State → Prop}
    (h : act.Ends p.world.backend (fun _ => onOk) fun _ => onError) :
    (recording (act.within Pass.onBackend)).Ends p
      (fun _ q => onOk q.world.backend ∧ q = Pass.onBackend.set q.world.backend p)
      fun _ q => onError q.world.backend := by
  unfold recording
  rw [Act.ends_bind, Act.ends_attempt, Act.ends_within]
  apply Act.Ends.mono h
  · exact fun _ t hok => ⟨hok, rfl⟩
  · intro cause t herror
    apply (ends_failWith_backend cause _).mono (fun _ _ => False.elim)
    intro _ q hq
    rw [hq]
    exact herror

theorem endsOn_recording {act : Act State Unit} {n : Nat} {onOk : Project → State → Prop}
    {path : String} {onError : Project → Prop}
    (h : Forge.Memory.EndsOn path n act p.world.backend (fun _ => onOk) onError) :
    Pass.EndsOn path n (recording (act.within Pass.onBackend)) p
      (fun _ project q => onOk project q.world.backend ∧ q.world.faults = p.world.faults ∧
        q.object = p.object)
      onError := by
  refine (ends_recording_backend h).mono ?_ fun _ _ hend => hend
  intro _ q hend
  obtain ⟨⟨project, hhosts, hspends, hend⟩, hset⟩ := hend
  exact ⟨project, hhosts, hspends, hend, by rw [hset]; rfl, by rw [hset]; rfl⟩

/-! ## CI variables -/

/-- The status once the variables are as they are wanted. -/
def remembered (repo : Descriptor) (status : RepoStatus) : RepoStatus :=
  { status with lastAppliedCiVariables := appliedAim repo status.lastAppliedCiVariables }

theorem endsOn_settleVariables (h : Hosts repo.fullPath project p.world.backend) :
    Pass.EndsOn repo.fullPath 0 (settleVariables (forge site) repo) p
      (fun _ after q => (∃ ciVariables, after = { project with ciVariables } ∧
          ciVariables =
            variablesAim repo p.object.status.lastAppliedCiVariables project.ciVariables) ∧
        q.object.status = remembered repo p.object.status ∧ q.world.faults = p.world.faults ∧
        ((∃ previous, p.object.status.lastAppliedCiVariables = appliedAim repo previous) →
          q.world.backend.mutations = p.world.backend.mutations))
      fun after => ∃ ciVariables, after = { project with ciVariables } ∧
        variablesAim repo p.object.status.lastAppliedCiVariables ciVariables =
          variablesAim repo p.object.status.lastAppliedCiVariables project.ciVariables := by
  unfold settleVariables
  apply endsVia_get_bind.2
  dsimp only
  rw [show AppliedVariables.ofDesired repo.ciVariables = repo.trace from rfl]
  by_cases hsame : p.object.status.lastAppliedCiVariables = some repo.trace
  · rw [if_pos hsame]
    refine Pass.endsOn_pure h ⟨⟨_, rfl, ?_⟩, ?_, rfl, fun _ => rfl⟩
    · rw [variablesAim, if_pos hsame]
    · rw [remembered, appliedAim, if_pos hsame]
  rw [if_neg hsame]
  have happlied : remembered repo p.object.status = { p.object.status with
      lastAppliedCiVariables := if repo.trace.names.isEmpty then none else some repo.trace } := by
    rw [remembered, appliedAim, if_neg hsame]
  by_cases hmanaged : (managedNames p.object.status.lastAppliedCiVariables repo.trace).isEmpty
  · rw [if_neg (by simpa using hmanaged)]
    refine Pass.endsOn_mapStatus h _ ⟨⟨_, rfl, ?_⟩, happlied.symm, rfl, fun _ => rfl⟩
    rw [variablesAim, if_neg hsame, List.isEmpty_iff.1 hmanaged, settled_nil]
  · rw [if_pos (by simpa using hmanaged)]
    refine ((Pass.endsOn_onBackend (endsOn_reconcileVariables h _ _)).imp_error
      ?_).bind (m := 0) (n := 0) fun _ after q hq _ hafter => ?_
    · intro after hend
      obtain ⟨ciVariables, rfl, hagree⟩ := hend
      exact ⟨ciVariables, rfl, variablesAim_congr hagree hsame⟩
    · obtain ⟨rfl, hfaults, hobject⟩ := hafter
      refine Pass.endsOn_mapStatus hq _ ⟨⟨_, rfl, ?_⟩, ?_, hfaults, ?_⟩
      · rw [variablesAim, if_neg hsame]
      · rw [happlied, ← hobject]
        rfl
      · intro hold
        obtain ⟨previous, hprevious⟩ := hold
        obtain hagain | ⟨hnone, hempty⟩ := appliedAim_cases repo previous
        · exact (hsame (hprevious.trans hagain)).elim
        · rw [hprevious, hnone, managedNames_none hempty] at hmanaged
          exact (hmanaged rfl).elim

/-! ## Access tokens -/

theorem ends_storeToken {path : String} {grant : AccessTokenGrant} {token : String}
    (hfaults : p.world.faults = {}) :
    ((World.storeToken path grant token).within Pass.onWorld).Ends p
      (fun _ q => q.world.backend = p.world.backend ∧ q.object = p.object) fun _ _ => False := by
  rw [Act.ends_of_ok (Pass.runFrom_onWorld (World.runFrom_storeToken hfaults path grant token))]
  exact ⟨rfl, rfl⟩

/-- What a grant comes to: the token is remembered, and a remembered one is left alone. -/
structure Tokened (c : Convergence State) (repo : Descriptor) (p q : Pass State)
    (project after : Project) : Prop where
  tokens : ∃ tokens, after = { project with tokens } ∧
    tokens.length = project.tokens.length +
      if NeedsToken repo c.now p.object.status.accessTokenUid project.tokens then 1 else 0
  status : ∃ accessTokenUid, q.object.status = { p.object.status with accessTokenUid }
  remembers : Remembers repo c.now q.object.status.accessTokenUid after.tokens
  again : Remembers repo c.now p.object.status.accessTokenUid project.tokens →
    q.object.status.accessTokenUid = p.object.status.accessTokenUid ∧ after = project ∧
      q.world.backend.mutations = p.world.backend.mutations

theorem Tokened.of_granted {q : Pass State} {after : Project} {name : String} {uid : UInt64}
    (hwanted : repo.accessToken = some name)
    (hgranted : Granted c.now p.object.status.accessTokenUid project uid after)
    (hstatus : q.object.status = { p.object.status with accessTokenUid := some uid })
    (hquiet : (chosen c.now project.tokens p.object.status.accessTokenUid).isSome →
      q.world.backend.mutations = p.world.backend.mutations) :
    Tokened c repo p q project after where
  tokens := by
    obtain ⟨tokens, hafter, hlength⟩ := hgranted.tokens
    refine ⟨tokens, hafter, hlength.trans ?_⟩
    cases hchosen : chosen c.now project.tokens p.object.status.accessTokenUid <;>
      simp [NeedsToken, hwanted, hchosen]
  status := ⟨_, hstatus⟩
  remembers := fun _ => by
    obtain ⟨token, hfound, huid⟩ := hgranted.found
    rw [hstatus]
    exact ⟨uid, token, rfl, hfound, huid⟩
  again := fun hremembers => by
    obtain ⟨hint, token, hhint, hchosen, huid⟩ := hremembers (by rw [hwanted]; rfl)
    obtain ⟨rfl, hafter⟩ := hgranted.same token hchosen
    exact ⟨by rw [hstatus, hhint, huid], hafter, hquiet (by rw [hchosen]; rfl)⟩

theorem endsOn_grantToken (h : Hosts repo.fullPath project p.world.backend)
    (hroom : p.world.backend.lastId.toNat + 1 < 2 ^ 64) (hfaults : p.world.faults = {}) :
    Pass.EndsOn repo.fullPath 1 (c.grantToken (forge site) repo) p
      (fun _ after q => Tokened c repo p q project after) fun after => after = project := by
  unfold grantToken
  cases hwanted : repo.accessToken with
  | none =>
      refine Pass.endsOn_pure h ⟨⟨project.tokens, rfl, ?_⟩, ⟨_, rfl⟩, ?_, fun _ => ⟨rfl, rfl, rfl⟩⟩
      · simp [NeedsToken, hwanted]
      · simp [Remembers, hwanted]
  | some name =>
      apply endsVia_get_bind.2
      dsimp only
      refine (Pass.endsOn_onBackend (endsOn_ensureAccessToken h hroom name _)).bind
        (m := 1) (n := 0) fun grant after q hq _ hafter => ?_
      obtain ⟨⟨hgranted, hquiet⟩, hsame, hobject⟩ := hafter
      have hend : ∀ r : Pass State, r.world.backend = q.world.backend → r.object = q.object →
          Tokened c repo p
            { r with object :=
                r.object.mapStatus fun s => { s with accessTokenUid := some grant.uid } }
            project after := fun r hbackend hrest =>
        .of_granted hwanted hgranted (by rw [hrest, hobject]; rfl)
          fun hsome => by rw [hbackend]; exact hquiet hsome
      cases grant.token with
      | none => exact Pass.endsOn_mapStatus hq _ (hend q rfl rfl)
      | some token =>
          unfold EndsVia
          dsimp only
          rw [Act.ends_bind]
          refine (ends_storeToken (hsame.trans hfaults)).mono ?_ fun _ _ => False.elim
          intro _ r hend
          obtain ⟨hbackend, hrest⟩ := hend
          rw [← hbackend] at hq ⊢
          exact Pass.endsOn_mapStatus hq _ (hend r hbackend hrest)

/-! ## The work on a repository that is there -/

/-- The status that a pass ends with. -/
def createdStatus (site : Site) (connection : Connection) (repo : Descriptor)
    (status : RepoStatus) (accessTokenUid : Option UInt64) : RepoStatus where
  phase := .created
  providerType := some (forge site).providerType
  url := some ((forge site).cloneUrl repo)
  hostKeys := connection.hostKeys
  accessTokenUid
  lastAppliedCiVariables := appliedAim repo status.lastAppliedCiVariables

/-- What the end of the work comes to. -/
structure Finished (c : Convergence State) (site : Site) (connection : Connection)
    (repo : Descriptor) (p q : Pass State) (project after : Project) : Prop where
  parts : ∃ ciVariables tokens, after = { project with ciVariables, tokens } ∧
    ciVariables = variablesAim repo p.object.status.lastAppliedCiVariables project.ciVariables ∧
    tokens.length = project.tokens.length +
      if NeedsToken repo c.now p.object.status.accessTokenUid project.tokens then 1 else 0
  status : q.object.status = createdStatus site connection repo p.object.status
    q.object.status.accessTokenUid
  remembers : Remembers repo c.now q.object.status.accessTokenUid after.tokens
  again : (∃ previous, p.object.status.lastAppliedCiVariables = appliedAim repo previous) →
    Remembers repo c.now p.object.status.accessTokenUid project.tokens →
      q.object.status.accessTokenUid = p.object.status.accessTokenUid ∧
        q.world.backend.mutations = p.world.backend.mutations

theorem endsOn_finish (h : Hosts repo.fullPath project p.world.backend)
    (hroom : p.world.backend.lastId.toNat + 1 < 2 ^ 64) (hfaults : p.world.faults = {}) :
    Pass.EndsOn repo.fullPath 1 (c.finish connection (forge site) repo) p
      (fun _ after q => Finished c site connection repo p q project after)
      fun after => ∃ ciVariables, after = { project with ciVariables } ∧
        variablesAim repo p.object.status.lastAppliedCiVariables ciVariables =
          variablesAim repo p.object.status.lastAppliedCiVariables project.ciVariables := by
  unfold finish
  apply (endsOn_settleVariables h).bind (m := 0) (n := 1)
  intro _ after q hq hspends hsettled
  obtain ⟨⟨ciVariables, rfl, rfl⟩, hstatus, hsame, hstill⟩ := hsettled
  have hlast := hspends.le_lastId
  refine ((endsOn_grantToken hq (by omega) (hsame.trans hfaults)).imp_error ?_).bind
    (m := 1) (n := 0) fun _ after r hr _ htokened => ?_
  · intro _ heq
    subst heq
    exact ⟨_, rfl, variablesAim_variablesAim _ _ _⟩
  · obtain ⟨⟨tokens, rfl, hlength⟩, ⟨uid, huid⟩, hremembers, hagain⟩ := htokened
    rw [hstatus] at hlength hagain huid
    refine Pass.endsOn_mapStatus hr _ ⟨⟨_, tokens, rfl, rfl, hlength⟩, ?_, hremembers, ?_⟩
    · dsimp only [Owner.mapStatus]
      rw [huid]
      rfl
    · intro hprevious hold
      obtain ⟨huid', -, hquiet⟩ := hagain hold
      exact ⟨huid', hquiet.trans (hstill hprevious)⟩

/-- What the work on a repository comes to, and what the status is before and after it. -/
structure Filled (c : Convergence State) (site : Site) (connection : Connection)
    (repo : Descriptor) (status next : RepoStatus) (project after : Project) : Prop where
  outline : after.outline = aim repo c.now status project
  carries : Carries repo after
  rested : Rested repo c.now next after
  created : next = createdStatus site connection repo status next.accessTokenUid
  again : Rested repo c.now status project → next.accessTokenUid = status.accessTokenUid

theorem Filled.of_finished {q r : Pass State} {after : Project} {deployKeys : List RemoteDeployKey}
    (hobject : r.object = p.object)
    (hcarries : Carries repo { project with deployKeys })
    (hfinished : Finished c site connection repo r q (described repo
      { committed repo project with deployKeys }) after) :
    Filled c site connection repo p.object.status q.object.status project after := by
  obtain ⟨⟨ciVariables, tokens, rfl, hvariables, hlength⟩, hstatus, hremembers, hagain⟩ := hfinished
  rw [hobject] at hvariables hlength hstatus hagain
  refine ⟨?_, hcarries, ⟨?_, rfl, ?_, hremembers⟩, hstatus, fun hrested => ?_⟩
  · simp only [Project.outline, aim, hvariables, hlength]
    simp [described]
  · exact filePlan_committed
  · exact ⟨_, by rw [hstatus]; rfl⟩
  · refine (hagain hrested.ciVariables ?_).1
    simpa [described] using hrested.remembers

/-- What is left of a repository when the work on it was cut short: the aim is as it was. -/
structure Drifts (c : Convergence State) (repo : Descriptor) (status : RepoStatus)
    (project after : Project) : Prop where
  aim_eq : aim repo c.now status after = aim repo c.now status project
  files : after.files = project.files ∨ after.files = (committed repo project).files

theorem Drifts.refl (c : Convergence State) (repo : Descriptor) (status : RepoStatus)
    (project : Project) : Drifts c repo status project project :=
  ⟨rfl, .inl rfl⟩

/-- The files are committed, but not all else is done. -/
theorem Drifts.of_committed {status : RepoStatus} {after : Project}
    (h : ∃ deployKeys description ciVariables,
      after = { committed repo project with
        deployKeys, ciVariables
        repository := { (committed repo project).repository with description } } ∧
      variablesAim repo status.lastAppliedCiVariables ciVariables =
        variablesAim repo status.lastAppliedCiVariables project.ciVariables) :
    Drifts c repo status project after := by
  obtain ⟨deployKeys, description, ciVariables, rfl, hvariables⟩ := h
  refine ⟨?_, .inr rfl⟩
  have hcommitted : aim repo c.now status (committed repo project) =
      aim repo c.now status project := aim_committed
  rw [← hcommitted]
  exact aim_congr rfl rfl rfl
    (hvariables.trans (by rw [ciVariables_committed])) rfl rfl

theorem endsOn_finish_filled {r : Pass State} {deployKeys : List RemoteDeployKey}
    (h : Hosts repo.fullPath (described repo
      { committed repo project with deployKeys }) r.world.backend)
    (hroom : r.world.backend.lastId.toNat + 1 < 2 ^ 64) (hfaults : r.world.faults = {})
    (hobject : r.object = p.object)
    (hcarries : Carries repo { project with deployKeys }) :
    Pass.EndsOn repo.fullPath 1 (c.finish connection (forge site) repo) r
      (fun _ after q =>
        Filled c site connection repo p.object.status q.object.status project after ∧
        (Rested repo c.now p.object.status project →
          q.world.backend.mutations = r.world.backend.mutations))
      fun after => Drifts c repo p.object.status project after := by
  apply (endsOn_finish h hroom hfaults).mono (Nat.le_refl 1)
  · intro _ after q hfinished
    refine ⟨.of_finished hobject hcarries hfinished, fun hrested => ?_⟩
    rw [← hobject] at hrested
    refine (hfinished.again hrested.ciVariables ?_).2
    simpa [described] using hrested.remembers
  · intro after hend
    obtain ⟨ciVariables, rfl, hvariables⟩ := hend
    rw [hobject] at hvariables
    exact .of_committed ⟨deployKeys, _, ciVariables, rfl,
      hvariables.trans (by simp [described])⟩

/-- How many identifiers the work on a repository may take: its keys come with its creation. -/
def fillCost (repo : Descriptor) (existed : Bool) : Nat :=
  (if existed then repo.deployKeys.size else 0) + 1

/-- The work on a repository that was there, or that was just created with its keys. -/
theorem endsOn_fill (h : Hosts repo.fullPath project p.world.backend)
    (hcount : Countable site project) (hfaults : p.world.faults = {}) (existed : Bool)
    (hroom : p.world.backend.lastId.toNat + fillCost repo existed < 2 ^ 64)
    (hnew : existed = false → Carries repo project ∧
      project.repository.description = repo.effectiveDisplayName) :
    Pass.EndsOn repo.fullPath (fillCost repo existed)
      (c.fill connection (forge site) repo existed) p
      (fun _ after q =>
        Filled c site connection repo p.object.status q.object.status project after ∧
        (existed = true → Rested repo c.now p.object.status project →
          Carries repo project →
          (q.world.backend.mutations = p.world.backend.mutations ↔ repo.KeysSettled)))
      fun after => Drifts c repo p.object.status project after := by
  unfold fill
  refine (((endsOn_recording (endsOn_commitTemplate h hcount)).imp_error ?_).bind
    (m := 0) (n := fillCost repo existed) fun _ after q hq hspends hcommitted => ?_).mono
      (by omega) (fun _ _ _ hend => hend) fun _ hend => hend
  · intro _ heq
    subst heq
    exact .refl ..
  obtain ⟨⟨rfl, hquiet⟩, hsame, hobject⟩ := hcommitted
  have hlast := hspends.le_lastId
  cases existed with
  | false =>
      obtain ⟨hcarries, hdescription⟩ := hnew rfl
      have hkeys : (committed repo project).deployKeys = project.deployKeys :=
        deployKeys_committed
      have hdescribed : described repo { committed repo project with
          deployKeys := project.deployKeys } = committed repo project := by
        rw [← hkeys]
        apply described_of_eq
        simpa using hdescription
      have hone : 1 ≤ fillCost repo false := Nat.le_add_left _ _
      rw [← hdescribed] at hq
      exact (endsOn_finish_filled hq (by omega) (hsame.trans hfaults) hobject hcarries).mono
        hone (fun _ _ _ hend => ⟨hend.1, nofun⟩) fun _ hend => hend
  | true =>
      have hcost : fillCost repo true = repo.deployKeys.size + 1 := rfl
      refine ((Pass.endsOn_onBackend
        (endsOn_updateRepository hq (by omega))).imp_error ?_).bind
        (m := repo.deployKeys.size) (n := 1) fun _ after r hr hmore hupdated => ?_
      · intro _ hend
        obtain ⟨deployKeys, rfl⟩ := hend
        exact .of_committed ⟨deployKeys, _, _, rfl, by simp⟩
      · obtain ⟨⟨⟨deployKeys, rfl⟩, hcarries, hstill⟩, hsame', hobject'⟩ := hupdated
        have hlast' := hmore.le_lastId
        refine (endsOn_finish_filled hr (by omega) (hsame'.trans (hsame.trans hfaults))
          (hobject'.trans hobject) hcarries).mono (Nat.le_refl 1) ?_ fun _ hend => hend
        intro _ after v hend
        obtain ⟨hfilled, hrest⟩ := hend
        refine ⟨hfilled, fun _ hrested hold => ?_⟩
        rw [hrest hrested, ← hquiet hrested.plan]
        exact hstill (by simpa [Carries] using hold)
          (by simpa using hrested.description)

end Convergence

end ForgeSync
