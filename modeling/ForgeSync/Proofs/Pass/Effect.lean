import ForgeSync.Proofs.Memory.Contents
import ForgeSync.Proofs.Pass.Arrival

/-!
# What a pass that succeeds has done

On any state of the forge, and whether or not the object in hand is current: if the work on a
living repository succeeds, the variables are where the status wants them, and the status says so.
Of deploy keys nothing is said here, so nothing has to be asked of their identifiers.

Main statements: `ends_convergeOn_settles`, `ends_converge_settles` and `variables_of_ok`.
-/

namespace ForgeSync

open Calendar (Instant)
open Forge.Memory

namespace Convergence

variable {c : Convergence State} {site : Site} {repo : Descriptor} {connection : Connection}
  {p q : Pass State}

/-! ## The end of the work -/

/-- What the work on a living repository has done when it succeeds. Before it there were the
variables `vars`. -/
structure Settles (c : Convergence State) (site : Site) (connection : Connection)
    (repo : Descriptor) (vars : Option (Table CiVariable)) (p q : Pass State) : Prop where
  keeps : Pass.Keeps p q
  settled : q.world.backend.variables repo.fullPath =
    vars.map (variablesAim repo p.object.status.lastAppliedCiVariables)
  status : q.object.status = createdStatus site connection repo p.object.status
    q.object.status.accessTokenUid
  /-- The remembered token stays the same exactly if there is a usable token under its name. -/
  token : q.object.status.accessTokenUid = p.object.status.accessTokenUid ↔
    Remembers repo c.now p.object.status.accessTokenUid
      ((q.world.backend.tokens repo.fullPath).getD [])

theorem ends_settleVariables :
    (settleVariables (forge site) repo).Ends p
      (fun _ q => q.world.backend.variables repo.fullPath =
          (p.world.backend.variables repo.fullPath).map
            (variablesAim repo p.object.status.lastAppliedCiVariables) ∧
        q.object.status = remembered repo p.object.status)
      fun _ _ => True := by
  unfold settleVariables
  rw [Act.ends_bind, Act.ends_get]
  dsimp only
  rw [show AppliedVariables.ofDesired repo.ciVariables = repo.trace from rfl]
  by_cases hsame : p.object.status.lastAppliedCiVariables = some repo.trace
  · -- what is remembered as applied is not looked at again
    have haim : variablesAim repo p.object.status.lastAppliedCiVariables = id := by
      funext vars
      rw [variablesAim, if_pos hsame, id]
    have hstatus : remembered repo p.object.status = p.object.status := by
      rw [remembered, appliedAim, if_pos hsame]
    rw [if_pos hsame, haim, hstatus, Option.map_id]
    exact ⟨rfl, rfl⟩
  have haim : variablesAim repo p.object.status.lastAppliedCiVariables =
      settled (managedNames p.object.status.lastAppliedCiVariables repo.trace)
        repo.ciVariables := by
    funext vars
    rw [variablesAim, if_neg hsame]
  have hstatus : remembered repo p.object.status = { p.object.status with
      lastAppliedCiVariables := if repo.trace.names.isEmpty then none else some repo.trace } := by
    rw [remembered, appliedAim, if_neg hsame]
  rw [if_neg hsame, haim, hstatus]
  by_cases hmanaged : managedNames p.object.status.lastAppliedCiVariables repo.trace = []
  · rw [hmanaged, if_neg (by simp)]
    refine ⟨?_, rfl⟩
    rw [show settled [] repo.ciVariables = id from funext (settled_nil _), Option.map_id]
    rfl
  · rw [if_pos (by simpa using hmanaged), Act.ends_bind, Act.ends_within]
    refine (variables_reconcileVariables _ _).mono (fun _ backend hend => ?_) fun _ _ _ => trivial
    exact ⟨hend, rfl⟩

theorem ends_grantToken :
    (c.grantToken (forge site) repo).Ends p
      (fun _ q => (∃ accessTokenUid, q.object.status = { p.object.status with accessTokenUid }) ∧
        (q.object.status.accessTokenUid = p.object.status.accessTokenUid ↔
          Remembers repo c.now p.object.status.accessTokenUid
            ((q.world.backend.tokens repo.fullPath).getD [])))
      fun _ _ => True := by
  unfold grantToken
  cases hwanted : repo.accessToken with
  | none => exact ⟨⟨_, rfl⟩, by simp [Remembers, hwanted]⟩
  | some name =>
      rw [Act.ends_bind, Act.ends_get]
      dsimp only
      rw [Act.ends_bind, Act.ends_within]
      refine (ends_ensureAccessToken name _).mono (fun grant backend hend => ?_)
        fun _ _ _ => trivial
      obtain ⟨tokens, htokens, hiff⟩ := hend
      have hend : ∀ q : Pass State, q.world.backend = backend → q.object = p.object →
          (∃ accessTokenUid, (q.object.mapStatus fun s =>
            { s with accessTokenUid := some grant.uid }).status =
              { p.object.status with accessTokenUid }) ∧
          (some grant.uid = p.object.status.accessTokenUid ↔
            Remembers repo c.now p.object.status.accessTokenUid
              ((q.world.backend.tokens repo.fullPath).getD [])) := by
        intro q hbackend hobject
        refine ⟨⟨some grant.uid, by rw [hobject]; rfl⟩, ?_⟩
        rw [hbackend, htokens, eq_comm, hiff]
        simp [Remembers, hwanted]
      cases grant.token with
      | none => exact hend _ rfl rfl
      | some token =>
          dsimp only
          rw [Act.ends_bind]
          unfold Act.Ends World.storeToken World.guarded
          rw [Act.runFrom_within, Act.runFrom_ofFunction]
          dsimp only [Pass.onWorld]
          split
          · rename_i hrun
            split at hrun <;> cases hrun
            exact hend _ rfl rfl
          · trivial

/-- Files, deploy keys, descriptions and tokens are no variables. -/
theorem respects_sameVariables_of {path : String} {calls : Forge.Call → Prop}
    (h : ∀ call, calls call → Forge.commitCalls repo call ∨ Forge.updateCalls repo call ∨
      ∃ request, Forge.tokenCalls repo.fullPath request call) :
    (forge site).Respects calls (SameVariables path) := by
  refine (respects_sameVariables site path).mono fun call hcall => ?_
  have hshape := h call hcall
  cases call <;> simp [Forge.commitCalls, Forge.updateCalls, Forge.tokenCalls, TouchesVariables]
    at hshape ⊢

theorem ends_finish_settles :
    (c.finish connection (forge site) repo).Ends p
      (fun _ q => Settles c site connection repo (p.world.backend.variables repo.fullPath) p q)
      fun _ _ => True := by
  have hends : (c.finish connection (forge site) repo).Ends p
      (fun _ q => Pass.Keeps p q → Settles c site connection repo
        (p.world.backend.variables repo.fullPath) p q) fun _ _ => True := by
    unfold finish
    rw [Act.ends_bind]
    refine ends_settleVariables.mono (fun _ q hsettled => ?_) fun _ _ _ => trivial
    obtain ⟨hvariables, hstatus⟩ := hsettled
    have hsame : Act.Moves (Pass.Along (SameVariables repo.fullPath))
        (c.grantToken (forge site) repo) :=
      moves_grantToken (sameVariables_chains _) c fun request =>
        respects_sameVariables_of fun call hcall => .inr (.inr ⟨request, hcall⟩)
    rw [Act.ends_bind]
    refine (ends_grantToken.and (hsame.ends q)).mono (fun _ r hgranted => ?_) fun _ _ _ => trivial
    obtain ⟨⟨⟨uid, huid⟩, htoken⟩, halong⟩ := hgranted
    rw [hstatus] at huid htoken
    refine fun hkeeps => ⟨hkeeps, ?_, ?_, htoken⟩
    · exact halong.backend.trans hvariables
    · dsimp only [Owner.mapStatus]
      rw [huid]
      rfl
  refine (hends.and (moves_keeps_finish.ends p)).mono (fun _ q hend => ?_) fun _ _ _ => trivial
  exact hend.1 hend.2

/-! ## The whole work -/

/-- What was before the end of the work does not matter, as long as the variables and what the
status remembers are the same. -/
theorem Settles.of_keeps {vars : Option (Table CiVariable)} {r : Pass State}
    (h : Settles c site connection repo vars q r) (hkeeps : Pass.Keeps p q) (phase : Phase)
    (hstatus : q.object.status = { p.object.status with phase }) :
    Settles c site connection repo vars p r := by
  obtain ⟨hrest, hsettled, hcreated, htoken⟩ := h
  rw [hstatus] at hsettled hcreated htoken
  exact ⟨Pass.keeps_chains.trans hkeeps hrest, hsettled, hcreated, htoken⟩

theorem ends_fill_settles (existed : Bool) :
    (c.fill connection (forge site) repo existed).Ends p
      (fun _ q => Settles c site connection repo (p.world.backend.variables repo.fullPath) p q)
      fun _ _ => True := by
  have hcommit : Act.Moves (SameVariables repo.fullPath) ((forge site).commitTemplate repo) :=
    Forge.moves_commitTemplate (sameVariables_chains _)
      (respects_sameVariables_of fun _ hcall => .inl hcall)
  have hupdate : Act.Moves (SameVariables repo.fullPath) ((forge site).updateRepository repo) :=
    Forge.moves_updateRepository (sameVariables_chains _)
      (respects_sameVariables_of fun _ hcall => .inr (.inl hcall))
  have hend : ∀ backend, SameVariables repo.fullPath p.world.backend backend →
      (c.finish connection (forge site) repo).Ends (Pass.onBackend.set backend p)
        (fun _ q => Settles c site connection repo (p.world.backend.variables repo.fullPath) p q)
        fun _ _ => True := by
    intro backend hsame
    refine ends_finish_settles.mono (fun _ q hend => ?_) fun _ _ => id
    rw [show (Pass.onBackend.set backend p).world.backend.variables repo.fullPath = _ from hsame]
      at hend
    exact hend.of_keeps (Pass.keeps_set backend p) p.object.status.phase rfl
  unfold fill
  apply ((ends_recording_backend (hcommit.ends p.world.backend)).mono (fun _ _ => id)
    fun _ _ _ => trivial).bind
  intro _ q hcommitted
  obtain ⟨hsame, hset⟩ := hcommitted
  rw [hset]
  dsimp only
  split
  · rw [Act.ends_bind, Act.ends_within]
    refine (hupdate.ends _).mono (fun _ backend hmoved => ?_) fun _ _ _ => trivial
    exact hend backend ((sameVariables_chains _).trans hsame hmoved)
  · exact hend _ hsame

theorem ends_createMissing_variables (habsent : repo.fullPath ∉ p.world.backend.projects) :
    (createMissing (forge site) repo).Ends p
      (fun _ q => q.world.backend.variables repo.fullPath = some ∅ ∧ Pass.Keeps p q ∧
        q.object.status = { p.object.status with phase := .creating })
      fun _ _ => True := by
  unfold createMissing
  dsimp only
  split
  · trivial
  rw [Act.ends_bind, Pass.modifyObject, Act.ends_modify]
  refine (ends_recording_backend (p := { p with object := p.object.withPhase .creating })
    (variables_createRepository habsent)).mono (fun _ q hend => ?_) fun _ _ _ => trivial
  obtain ⟨hcreated, hset⟩ := hend
  exact ⟨hcreated, by rw [hset]; exact ⟨rfl, rfl, rfl, rfl, rfl, rfl⟩, by rw [hset]; rfl⟩

theorem ends_convergeRepository_settles
    (existed : Bool) (h : existed = false → repo.fullPath ∉ p.world.backend.projects) :
    (c.convergeRepository connection (forge site) repo existed).Ends p
      (fun _ q => Settles c site connection repo
        (if existed then p.world.backend.variables repo.fullPath else some ∅) p q)
      fun _ _ => True := by
  rw [convergeRepository_eq]
  cases existed with
  | true => exact ends_fill_settles true
  | false =>
      apply (ends_createMissing_variables (h rfl)).bind
      intro _ q hcreated
      obtain ⟨hvariables, hkeeps, hstatus⟩ := hcreated
      refine (ends_fill_settles false).mono (fun _ r hend => ?_) fun _ _ => id
      rw [hvariables] at hend
      exact hend.of_keeps hkeeps .creating hstatus

/-- Work on a living repository that succeeds has settled the variables of the repository, which has
none if it had to be created. -/
theorem ends_convergeOn_settles (hliving : p.deleted = false) :
    (c.convergeOn connection (forge site) repo).Ends p
      (fun _ q => Settles c site connection repo
        (some ((p.world.backend.variables repo.fullPath).getD ∅)) p q)
      fun _ _ => True := by
  unfold Act.Ends
  rw [convergeOn_of_living hliving, Act.runFrom_within,
    show Pass.onBackend.get p = p.world.backend from rfl]
  have hread : ((forge site).getProject repo.fullPath).Ends p.world.backend _ _ := ends_getProject
  unfold Forge.readRepository
  rcases hrun : ((forge site).getProject repo.fullPath).runFrom p.world.backend with
    ⟨failure | remote, after⟩
  · trivial
  obtain ⟨rfl, rfl⟩ := hread.of_ok hrun
  refine (ends_convergeRepository_settles _ fun hnone => ?_).mono (fun _ q hend => ?_)
    fun _ _ => id
  · rw [Option.isSome_map] at hnone
    exact fun hmem => Bool.false_ne_true
      (hnone.symm.trans (Std.ExtTreeMap.mem_iff_isSome_getElem?.1 hmem))
  · have hvariables : (if (p.world.backend.projects[repo.fullPath]?.map (·.repository)).isSome then
        p.world.backend.variables repo.fullPath else some ∅) =
        some ((p.world.backend.variables repo.fullPath).getD ∅) := by
      unfold State.variables
      cases p.world.backend.projects[repo.fullPath]? <;> rfl
    rw [← hvariables]
    exact hend.of_keeps (Pass.keeps_set _ p) p.object.status.phase rfl

/-- Work on an object with a template that succeeds has filled in the template, also where the
object is being deleted and no forge was reached. -/
theorem ends_converge_spec {σ : Type} {c : Convergence σ} {p : Pass σ} {o : Owner}
    (h : p.Holds o) (hrepo : c.completed p.object = some repo) :
    c.converge.Ends p (fun _ q => q.object.spec = (p.object.withTemplate repo).spec)
      fun _ _ => True := by
  have hfilled : (templated p repo).Holds o :=
    ⟨⟨h.faults, h.stored, h.key, h.version⟩, h.status⟩
  unfold Act.Ends
  cases htenant : Text.isBlankText p.object.tenantRef with
  | true =>
      obtain ⟨declared, hdeclared, -⟩ := Option.map_eq_some_iff.1 hrepo
      rw [converge_of_blank_tenant (by simp [hdeclared]) htenant]
      trivial
  | false =>
      obtain ⟨read, hread⟩ : ∃ read,
          (connectionOf p.object).runFrom (templated p repo) = (read, templated p repo) :=
        ⟨_, runFrom_connectionOf p.object _⟩
      rw [converge_of_template hrepo htenant, hread]
      rcases read with failure | _ | connection
      · trivial
      · -- without a secret only an object that is being deleted goes on
        dsimp only
        cases (templated p repo).deleted with
        | true => rfl
        | false => trivial
      · dsimp only
        rw [runFrom_convergeThrough]
        cases c.registry.resolve repo.effectiveRepoType connection.endpoint with
        | error failure => trivial
        | ok factory =>
            dsimp only
            cases factory.connect connection with
            | error failure => trivial
            | ok forge =>
                exact (ends_convergeOn hfilled).mono (fun _ q hkeeps => hkeeps.spec)
                  fun _ _ _ => trivial

end Convergence

/-! ## The whole pass -/

namespace Reconciler

variable {σ : Type} {o : Owner}

/-- A pass that does not fail has worked on the repository without failure, and all that is left is
the closing, which leaves the forge alone. -/
theorem exists_work_of_ok {r : Reconciler σ} {w : World σ} {outcome : Outcome}
    (hok : (r.reconcile o w).1 = .ok outcome) :
    ∃ p, r.convergence.converge.runFrom (r.opening o w) = (.ok (), p) ∧
      r.reconcile o w =
        runSteps (r.rules o) [Lifecycle.updateObject] (r.finalized o p) ∧
      (r.reconcile o w).2.world.backend = p.world.backend := by
  by_cases hadmitted : o.isDeleting = true → Lifecycle.isAllowed (r.rules o) o = true
  · have hrun := reconcile_of_admitted r o w hadmitted
    rcases hwork : r.convergence.converge.runFrom (r.opening o w) with ⟨failure | _, p⟩
    · rw [hrun, hwork] at hok
      cases hok
    · rw [hwork] at hrun
      exact ⟨p, rfl, hrun, by rw [backend_of_admitted r o w hadmitted, hwork]⟩
  · obtain ⟨hdeleting, hrefused⟩ := Classical.not_imp.1 hadmitted
    rw [reconcile_of_refused r o w hdeleting (Bool.eq_false_iff.2 hrefused)] at hok
    cases hok

variable {r : Reconciler State} {w : World State} {site : Site} {repo : Descriptor}

/-- The pass as it comes to the repository, for a living object. -/
theorem templated_opening (hliving : o.isDeleting = false) :
    (Convergence.templated (r.opening o w) repo).object =
      { metadata := { o.metadata with annotations := r.keptAnnotations o.metadata.annotations }
        spec := (o.withTemplate repo).spec
        status := o.status } := by
  rw [Convergence.templated, opening, admitted_of_living hliving]
  rfl

/-- Work on a living object with a template that succeeds has reached the forge and settled the
variables of the repository. -/
theorem ends_converge_settles (hserves : r.registry.Serves (forge site))
    (hliving : o.isDeleting = false) (htemplate : r.convergence.completed o = some repo) :
    r.convergence.converge.Ends (r.opening o w)
      (fun _ p => ∃ connection, r.convergence.Access (r.admitted o) w repo connection (forge site) ∧
        r.convergence.Settles site connection repo
          (some ((w.backend.variables repo.fullPath).getD ∅))
          (Convergence.templated (r.opening o w) repo) p)
      fun _ _ => True := by
  by_cases haccess : ∃ connection,
      r.convergence.Access (r.admitted o) w repo connection (forge site)
  · obtain ⟨connection, haccess⟩ := haccess
    unfold Act.Ends
    rw [Convergence.converge_of_access (p := r.opening o w) haccess]
    exact (Convergence.ends_convergeOn_settles (c := r.convergence)
      (p := Convergence.templated (r.opening o w) repo) hliving).mono
      (fun _ p hend => ⟨connection, haccess, hend⟩) fun _ _ => id
  · exact (ends_converge_of_no_access hserves hliving htemplate haccess).mono
      (fun _ _ => False.elim) fun _ _ _ => trivial

/-- A pass on a living object that does not fail takes the variables of the repository to their
aim. -/
theorem variables_of_ok {declared : Descriptor} {outcome : Outcome}
    (hserves : r.registry.Serves (forge site)) (hliving : o.isDeleting = false)
    (htemplate : o.spec.gitTemplate = some declared)
    (hok : (r.reconcile o w).1 = .ok outcome) :
    (r.reconcile o w).2.world.backend.variables declared.fullPath =
      some (variablesAim declared o.status.lastAppliedCiVariables
        ((w.backend.variables declared.fullPath).getD ∅)) := by
  obtain ⟨p, hwork, -, hbackend⟩ := exists_work_of_ok hok
  obtain ⟨connection, -, hsettles⟩ :=
    (ends_converge_settles hserves hliving (completed_of_template htemplate)).of_ok hwork
  have hvariables := hsettles.settled
  rw [templated_opening hliving, ← hbackend] at hvariables
  exact hvariables

/-! ## What is stored -/

/-- What a pass that did not fail leaves of an object in the store has the template filled in. -/
theorem spec_of_ok {declared : Descriptor} {outcome : Outcome} {next : Owner}
    (hfetched : Fetched o w) (htemplate : o.spec.gitTemplate = some declared)
    (hok : (r.reconcile o w).1 = .ok outcome)
    (hnext : (r.reconcile o w).2.world.store.objects[o.key]? = some next) :
    next.spec = (o.withTemplate (completedTemplate o r.settings.defaultDeletionPolicy
      r.settings.defaultCreationPolicy declared)).spec := by
  obtain ⟨p, q, hrun, hcompleted⟩ | ⟨failure, q, hrun, -⟩ := reconcile_of_fetched (r := r) hfetched
  · rw [hrun] at hnext
    obtain ⟨version, rfl⟩ := hcompleted.closed.stored next hnext
    obtain ⟨finalizers, hobject⟩ := finalized_finalizers r o p
    have hrepo := (kin_admitted r o).completed.trans (completed_of_template htemplate)
    have hspec := (Convergence.ends_converge_spec (p := r.opening o w)
      (holds_opening hfetched) hrepo).of_ok hcompleted.work
    rw [hobject]
    refine hspec.trans ?_
    dsimp only [opening, Owner.withTemplate]
    rw [spec_admitted]
  · rw [hrun] at hok
    cases hok

/-- A pass that failed leaves of an object in the store at most the phase changed. -/
theorem stored_of_error {failure : StepFailure} (hfetched : Fetched o w)
    (herror : (r.reconcile o w).1 = .error failure) :
    ∃ phase version, (r.reconcile o w).2.world.store.objects[o.key]? =
      some ((o.withPhase phase).withVersion version) := by
  obtain ⟨p, q, hrun, -⟩ | ⟨failure, q, hrun, hstore⟩ := reconcile_of_fetched (r := r) hfetched
  · rw [hrun] at herror
    cases herror
  · rw [hrun]
    exact marked_of_store hfetched hstore

/-- A pass on a living object that did not fail leaves it stored, and the wanted variables
remembered. -/
theorem stored_of_ok {declared : Descriptor} {outcome : Outcome}
    (hserves : r.registry.Serves (forge site)) (hfetched : Fetched o w)
    (hliving : o.isDeleting = false) (htemplate : o.spec.gitTemplate = some declared)
    (hok : (r.reconcile o w).1 = .ok outcome) :
    ∃ next, (r.reconcile o w).2.world.store.objects[o.key]? = some next ∧
      next.status.lastAppliedCiVariables =
        appliedAim declared o.status.lastAppliedCiVariables := by
  obtain ⟨p, q, hrun, hcompleted⟩ | ⟨failure, q, hrun, -⟩ := reconcile_of_fetched (r := r) hfetched
  · obtain ⟨version, hnext⟩ := hcompleted.present hliving
    obtain ⟨connection, -, hsettles⟩ := (ends_converge_settles hserves hliving
      (completed_of_template htemplate)).of_ok hcompleted.work
    have hstatus := hsettles.status
    rw [templated_opening hliving] at hstatus
    rw [hrun]
    refine ⟨_, hnext, ?_⟩
    dsimp only [finalized, Owner.withVersion, Owner.mapMeta]
    rw [hstatus]
    rfl
  · rw [hrun] at hok
    cases hok

end Reconciler

end ForgeSync
