import ForgeSync.Proofs.Memory.Renaming
import ForgeSync.Proofs.Pass.Removal
import ForgeSync.Proofs.Pass.Result
import ForgeSync.Proofs.Pass.Undisturbed

/-!
# The same work elsewhere

What the work on a repository comes to where nothing disturbs it: the repository as a function of
the last identifier that was given before, and the object as a function of the one that was given
last of all. Other identifiers make no difference but the renaming.

Main statements: `describes_livingWork`, `describes_retiring` and `describes_adopting` for work that
reaches the forge, `converge_elsewhere` for work that does not, and `closing_storedAs` for what is
stored behind it.
-/

namespace ForgeSync

open Calendar (Instant)
open Forge.Memory

/-! ## What is stored in the end -/

namespace Lifecycle

variable {σ : Type} {o : Owner} {p : Pass σ} {rules : Rules}

/-- What is stored of an object that was stored as `o` and that a pass hands back. -/
def storedAs (o object : Owner) : Option Owner :=
  if object.metadata = o.metadata ∧ object.spec = o.spec then
    if object.status = o.status then some o
    else some (object.withVersion (o.metadata.resourceVersion + 1))
  else if ObjectStore.isReleased object.metadata then none
  else if object.status = o.status then some (object.withVersion (o.metadata.resourceVersion + 1))
  else some (object.withVersion (o.metadata.resourceVersion + 2))

theorem ends_store_storedAs (h : Ready o p) (hinitial : rules.initial = o) :
    ((do storeObject rules; storeStatus rules : Act (Pass σ) Unit)).Ends p
      (fun _ q => q.world.store.objects[o.key]? = storedAs o p.object) fun _ _ => False := by
  apply (ends_storeObject h hinitial).bind
  intro _ q heq
  subst heq
  unfold storedAs
  by_cases hsame : p.object.metadata = o.metadata ∧ p.object.spec = o.spec
  · have hagree : o = { p.object with status := o.status } := by
      dsimp only
      rw [hsame.1, hsame.2]
    rw [if_pos hsame, if_pos hsame]
    refine (ends_storeStatus h.faults hinitial h.key h.stored hagree).mono ?_ fun _ _ => id
    intro _ q heq
    subst heq
    split
    · exact h.stored
    · rw [← h.version]
      exact Std.ExtTreeMap.getElem?_insert_self
  · rw [if_neg hsame, if_neg hsame]
    cases hreleased : ObjectStore.isReleased p.object.metadata with
    | true =>
        have hdeleting : p.deleted = true := by
          simp only [ObjectStore.isReleased, Bool.and_eq_true] at hreleased
          rw [h.deleted, Owner.isDeleting, ObjectMeta.isDeleting, ← h.deletion]
          exact hreleased.1
        refine (ends_storeStatus_of_absent (by exact h.faults) (by exact h.key) (by simp)
          (by exact hdeleting)).mono ?_ fun _ _ => id
        intro _ q heq
        subst heq
        simp
    | false =>
        refine (ends_storeStatus (s := nextObject o p) (by exact h.faults) hinitial
          (by exact h.key) (by simp) rfl).mono ?_ fun _ _ => id
        intro _ q heq
        subst heq
        dsimp only
        split
        · rename_i hstatus
          have hstatus : p.object.status = o.status := hstatus
          have hnext : nextObject o p = p.object.withVersion (o.metadata.resourceVersion + 1) := by
            rw [nextObject, ← hstatus]
            rfl
          rw [if_neg Bool.false_ne_true, if_pos hstatus, ← hnext]
          exact Std.ExtTreeMap.getElem?_insert_self
        · rename_i hstatus
          have hstatus : p.object.status ≠ o.status := hstatus
          rw [if_neg Bool.false_ne_true, if_neg hstatus]
          exact Std.ExtTreeMap.getElem?_insert_self

theorem closing_storedAs (h : Ready o p) (hinitial : rules.initial = o) :
    ∃ q, runSteps rules [updateObject] p = (.ok {}, q) ∧ Closed o p q ∧
      q.world.store.objects[o.key]? = storedAs o p.object := by
  obtain ⟨_, q, hrun, hclosed, hstored⟩ :=
    ((ends_store h hinitial).and (ends_store_storedAs h hinitial)).mono (fun _ _ => id)
      (fun _ _ hend => hend.1) |>.exists_ok
  refine ⟨q, runSteps_of_stop ?_ [], hclosed, hstored⟩
  simp only [updateObject]
  rw [Act.runFrom_bind, Act.runFrom_attempt, hrun]
  rfl

end Lifecycle

/-! ## Work that reaches no forge -/

namespace Convergence

variable {σ : Type} {c : Convergence σ} {p : Pass σ} {w : World σ}

/-- Work that reaches no forge goes the same way in every world with the same secrets. -/
theorem converge_elsewhere (hnone : ∀ repo connection forge,
      ¬ Access c p.object p.world repo connection forge)
    (hsecrets : w.secrets = p.world.secrets) (hfaults : w.faults = p.world.faults) :
    c.converge.runFrom { p with world := w } =
      ((c.converge.runFrom p).1, { (c.converge.runFrom p).2 with world := w }) := by
  cases htemplate : p.object.spec.gitTemplate with
  | none => rw [converge_of_no_template htemplate, converge_of_no_template (by exact htemplate)]
  | some declared =>
      have hsome : p.object.spec.gitTemplate ≠ none := by simp [htemplate]
      cases htenant : Text.isBlankText p.object.tenantRef with
      | true =>
          rw [converge_of_blank_tenant hsome htenant, converge_of_blank_tenant (by exact hsome)
            (by exact htenant)]
      | false =>
          obtain ⟨repo, hrepo⟩ : ∃ repo, c.completed p.object = some repo := by
            simp [completed, htemplate]
          rw [converge_of_template hrepo htenant,
            converge_of_template (p := { p with world := w }) hrepo htenant,
            runFrom_connectionOf, runFrom_connectionOf]
          dsimp only [templated]
          rw [hsecrets, hfaults]
          cases hfault : p.world.faults.getSecret with
          | some failure => rfl
          | none =>
              dsimp only
              cases hsecret : p.world.secrets.get? p.object.metadata.space p.object.tenantRef with
              | none => cases p.deleted <;> rfl
              | some data =>
                  dsimp only
                  cases hconnection : Connection.ofData p.object.tenantRef data with
                  | error failure => rfl
                  | ok connection =>
                      simp only [Except.map, runFrom_convergeThrough]
                      cases hresolve : c.registry.resolve repo.effectiveRepoType
                          connection.endpoint with
                      | error failure => rfl
                      | ok factory =>
                          dsimp only
                          cases hconnect : factory.connect connection with
                          | error failure => rfl
                          | ok forge =>
                              exact (hnone repo connection forge ⟨hrepo, htenant, hfault,
                                ⟨data, hsecret, hconnection⟩, factory, hresolve, hconnect⟩).elim

end Convergence

/-! ## What the work comes to -/

/-- The object with a token remembered. -/
def Owner.remembering (o : Owner) (uid : UInt64) : Owner :=
  o.mapStatus fun s => { s with accessTokenUid := some uid }

/-- The vault after a pass. If it has minted a token, its last identifier is that of the token. -/
def vaultAfter (minted : Bool) (path : String) (uid : UInt64) (vault : TokenVault) : TokenVault :=
  if minted then ⟨vault.tokens.insert path ⟨uid, secretOf uid⟩⟩ else vault

/-- What undisturbed work on the repository of an object comes to. The repository depends on the
last identifier that was given before, and the object on the one that was given last of all. -/
structure Work where
  outcome : Except Failure Unit
  taken : Nat
  minted : Bool
  project : UInt64 → Option Project
  object : UInt64 → Owner

namespace Work

/-- The work takes a pass from `p` to `q`. -/
structure Describes (e : Work) (path : String) (p q : Pass State) : Prop where
  backend : Becomes path (e.project p.world.backend.lastId) e.taken p.world.backend q.world.backend
  world : q.world =
    { p.world with
      backend := q.world.backend
      vault := vaultAfter e.minted path q.world.backend.lastId p.world.vault }
  object : e.outcome = .ok () →
    q.object = e.object q.world.backend.lastId ∧ q.deleted = p.deleted

theorem Describes.of_templated {e : Work} {path : String} {p q : Pass State} {repo : Descriptor}
    (h : e.Describes path (Convergence.templated p repo) q) : e.Describes path p q :=
  ⟨h.backend, h.world, h.object⟩

/-- Other identifiers make no difference but the renaming, and the work remembers no identifier but
one that it took itself, one of the repository, or the one that was remembered before. -/
structure Uniform (e : Work) (hint : Option UInt64) (present : Option Project) : Prop where
  project : ∀ {ρ last last'}, (∀ project, present = some project → ∀ id ∈ project.ids, ρ id = id) →
    Shifts ρ last last' e.taken → e.project last' = (e.project last).map (Project.renamed ρ)
  object : ∀ u v, e.object v = if e.minted then (e.object u).remembering v else e.object u
  minted : e.minted = true → e.outcome = .ok () ∧ 0 < e.taken
  remembers : e.minted = false → e.outcome = .ok () → ∀ u,
    (e.object u).status.accessTokenUid = hint ∨
      ∃ project, present = some project ∧ ∃ id ∈ project.ids,
        (e.object u).status.accessTokenUid = some id

/-- Work that takes no identifier. -/
def still (outcome : Except Failure Unit) (project : Option Project) (object : Owner) : Work where
  outcome
  taken := 0
  minted := false
  project _ := project
  object _ := object

theorem uniform_still {outcome : Except Failure Unit} {present project : Option Project}
    {hint : Option UInt64} {object : Owner}
    (hhint : outcome = .ok () → object.status.accessTokenUid = hint)
    (hids : ∀ after, project = some after → ∃ before, present = some before ∧
      after.ids = before.ids) : (still outcome project object).Uniform hint present where
  project {ρ _ _} hfixed _ := by
    cases project with
    | none => rfl
    | some after =>
        obtain ⟨before, hbefore, hsame⟩ := hids after rfl
        have hrenamed : after.renamed ρ = after :=
          Project.renamed_of_fixed (hsame ▸ hfixed before hbefore)
        rw [still, Option.map_some, hrenamed]
  object _ _ := rfl
  minted := nofun
  remembers _ hok _ := .inl (hhint hok)

theorem describes_still {outcome : Except Failure Unit} {path : String} {project : Option Project}
    {object : Owner} {p q : Pass State}
    (hbecomes : Becomes path project 0 p.world.backend q.world.backend)
    (hworld : q.world = { p.world with backend := q.world.backend })
    (hobject : outcome = .ok () → q.object = object ∧ q.deleted = p.deleted) :
    (still outcome project object).Describes path p q :=
  ⟨hbecomes, hworld, hobject⟩

end Work

section Finished

variable {repo : Descriptor} {now : Instant} {status : RepoStatus} {site : Site}
  {ρ : UInt64 → UInt64} {last last' uid : UInt64} {present : Option Project}
  {tokens : List AccessTokenRecord}

/-- The tokens of a repository, if it is there. -/
def presentTokens (present : Option Project) : List AccessTokenRecord :=
  present.elim [] (·.tokens)

theorem tokens_preparedProject :
    (preparedProject site repo last present).tokens = presentTokens present := by
  cases present with
  | none => exact tokens_committed
  | some project => exact tokens_committed

theorem tokenToMint_of_not_needed {hint : Option UInt64} (h : ¬ NeedsToken repo now hint tokens) :
    tokenToMint repo now hint uid tokens = none := by
  unfold tokenToMint
  split
  · rfl
  · rename_i hchosen
    rw [Option.not_isSome_iff_eq_none] at hchosen
    have hunwanted : repo.accessToken = none := by simpa [NeedsToken, hchosen] using h
    rw [hunwanted, Option.map_none]

theorem tokenToMint_of_needed {hint : Option UInt64} (h : NeedsToken repo now hint tokens) :
    (tokenToMint repo now hint uid tokens).map storedToken = some ⟨uid, secretOf uid⟩ := by
  obtain ⟨hwanted, hnone⟩ := h
  obtain ⟨name, hname⟩ := Option.isSome_iff_exists.1 hwanted
  rw [tokenToMint, hnone, hname]
  rfl

theorem uidAim_of_needed {hint : Option UInt64} (h : NeedsToken repo now hint tokens) :
    uidAim repo now hint uid tokens = some uid := by
  rw [uidAim, if_pos h.1, h.2]
  rfl

theorem uidAim_of_not_needed {hint : Option UInt64} (h : ¬ NeedsToken repo now hint tokens)
    (u v : UInt64) : uidAim repo now hint v tokens = uidAim repo now hint u tokens := by
  unfold uidAim
  split
  · rename_i hwanted
    cases hchosen : chosen now tokens hint with
    | none => exact (h ⟨hwanted, hchosen⟩).elim
    | some token => rfl
  · rfl

/-- Where no token is created, the one that is remembered is not a new one. -/
theorem uidAim_remembers {hint : Option UInt64}
    (h : ¬ NeedsToken repo now hint (presentTokens present)) :
    uidAim repo now hint uid (presentTokens present) = hint ∨
      ∃ project, present = some project ∧ ∃ id ∈ project.ids,
        uidAim repo now hint uid (presentTokens present) = some id := by
  unfold uidAim
  split
  · rename_i hwanted
    cases hchosen : chosen now (presentTokens present) hint with
    | none => exact (h ⟨hwanted, hchosen⟩).elim
    | some token =>
        obtain ⟨listed, hlisted, -, huid⟩ := suits_of_chosen hchosen
        cases present with
        | none => cases hlisted
        | some project =>
            exact .inr ⟨project, rfl, token.uid,
              mem_ids.2 (.inr (.inr ⟨listed, hlisted, huid⟩)), rfl⟩
  · exact .inl rfl

theorem renamed_tokenToMint {hint : Option UInt64} :
    (tokenToMint repo now hint uid tokens).map (renamedToken ρ) =
      tokenToMint repo now hint (ρ uid) tokens := by
  unfold tokenToMint
  split
  · rfl
  · rw [Option.map_map]
    congr 1
    funext name
    exact renamedToken_mintedToken name now uid

theorem renamed_finishedProject
    (hfixed : ∀ project, present = some project → ∀ id ∈ project.ids, ρ id = id)
    (hshifts : Shifts ρ last last' (preparedCost repo present +
      mintCost repo now status.accessTokenUid (presentTokens present))) :
    (finishedProject repo now status (last + UInt64.ofNat (preparedCost repo present) + 1)
        (preparedProject site repo last present)).renamed ρ =
      finishedProject repo now status (last' + UInt64.ofNat (preparedCost repo present) + 1)
        (preparedProject site repo last' present) := by
  have hprepared := renamed_preparedProject site hfixed
    (hshifts.mono (Nat.le_add_right _ _))
  have hvariables : (preparedProject site repo last present).ciVariables =
      (preparedProject site repo last' present).ciVariables :=
    congrArg (·.ciVariables) hprepared
  have htokens : (presentTokens present).map (renamedToken ρ) = presentTokens present := by
    cases present with
    | none => rfl
    | some project =>
        exact map_renamedToken_of_fixed fun token htoken =>
          hfixed project rfl _ (mem_ids.2 (.inr (.inr ⟨token, htoken, rfl⟩)))
  have hminted : (tokenToMint repo now status.accessTokenUid
        (last + UInt64.ofNat (preparedCost repo present) + 1) (presentTokens present)).map
        (renamedToken ρ) =
      tokenToMint repo now status.accessTokenUid
        (last' + UInt64.ofNat (preparedCost repo present) + 1) (presentTokens present) := by
    rw [renamed_tokenToMint]
    by_cases hneeds : NeedsToken repo now status.accessTokenUid (presentTokens present)
    · rw [hshifts.drop.next (by rw [mintCost, if_pos hneeds]; exact Nat.one_pos)]
    · rw [tokenToMint_of_not_needed hneeds, tokenToMint_of_not_needed hneeds]
  have hrenamed : ∀ (project : Project) ciVariables tokens,
      ({ project with ciVariables, tokens } : Project).renamed ρ =
        { project.renamed ρ with ciVariables, tokens := tokens.map (renamedToken ρ) } :=
    fun _ _ _ => rfl
  rw [finishedProject, hrenamed, hprepared, tokens_preparedProject, List.map_append, htokens,
    ← Option.toList_map, hminted, hvariables, finishedProject, tokens_preparedProject]

end Finished

/-! ## The work on a living repository -/

/-- The world as the work on a repository finds it. -/
structure Found (site : Site) (repo : Descriptor) (present : Option Project) (s : State) :
    Prop where
  failures : s.failures = ∅
  here : s.projects[repo.fullPath]? = present
  hosts : ∀ project, present = some project → Hosts repo.fullPath project s
  listable : ∀ project, present = some project → Listable site project

/-- The update of a repository finds it with the files committed. -/
theorem Found.hosts_committed {site : Site} {repo : Descriptor} {project : Project} {s t : State}
    (h : Found site repo (some project) s)
    (ht : Becomes repo.fullPath (some (committed repo project)) 0 s t) :
    t.lastId = s.lastId ∧ Hosts repo.fullPath (committed repo project) t := by
  exact ⟨ht.lastId_eq, (h.hosts project rfl).of_becomes ht deployKeys_committed⟩

namespace Convergence

variable {c : Convergence State} {site : Site} {repo : Descriptor} {connection : Connection}
  {p q : Pass State} {present : Option Project} {object : Owner}

variable (c site connection repo) in
/-- What the work on a living repository comes to that is there or may be created. -/
def livingWork (object : Owner) (present : Option Project) : Work where
  outcome := .ok ()
  taken := preparedCost repo present +
    mintCost repo c.now object.status.accessTokenUid (presentTokens present)
  minted := decide (NeedsToken repo c.now object.status.accessTokenUid (presentTokens present))
  project last := some (finishedProject repo c.now object.status
    (last + UInt64.ofNat (preparedCost repo present) + 1) (preparedProject site repo last present))
  object uid := object.mapStatus fun s => createdStatus site connection repo s
    (uidAim repo c.now object.status.accessTokenUid uid (presentTokens present))

theorem uniform_livingWork :
    (livingWork c site repo connection object present).Uniform object.status.accessTokenUid
      present where
  minted hminted := by
    refine ⟨rfl, ?_⟩
    rw [livingWork, decide_eq_true_eq] at hminted
    rw [livingWork, mintCost, if_pos hminted]
    exact Nat.succ_pos _
  remembers hminted _ uid := by
    rw [livingWork, decide_eq_false_iff_not] at hminted
    exact uidAim_remembers hminted
  project hfixed hshifts := by
    rw [livingWork, Option.map_some, renamed_finishedProject hfixed hshifts]
  object u v := by
    by_cases hneeds : NeedsToken repo c.now object.status.accessTokenUid (presentTokens present)
    · simp only [livingWork, hneeds, Owner.remembering, Owner.mapStatus, createdStatus,
        uidAim_of_needed hneeds, decide_true, if_true]
    · simp only [livingWork, hneeds, uidAim_of_not_needed hneeds u v, decide_false,
        Bool.false_eq_true, if_false]

/-- Where the store of the vault does not fail, the end of the work does not. -/
theorem Ended.of_no_faults {uid : UInt64} {project : Project} {t : State}
    {outcome : Except Failure Unit}
    (h : Ended c site connection repo p uid project t outcome q)
    (hfaults : p.world.faults = {}) :
    outcome = .ok () ∧ q = { p with
      object := p.object.mapStatus fun s => createdStatus site connection repo s
        (uidAim repo c.now p.object.status.accessTokenUid uid project.tokens)
      world := { p.world with
        backend := t
        vault := vaultAfter
          (decide (NeedsToken repo c.now p.object.status.accessTokenUid project.tokens))
          repo.fullPath uid p.world.vault } } := by
  have hvault : p.world.vaultWith repo.fullPath ((tokenToMint repo c.now
      p.object.status.accessTokenUid uid project.tokens).map storedToken) =
      .ok (vaultAfter
        (decide (NeedsToken repo c.now p.object.status.accessTokenUid project.tokens))
        repo.fullPath uid p.world.vault) := by
    by_cases hneeds : NeedsToken repo c.now p.object.status.accessTokenUid project.tokens
    · rw [tokenToMint_of_needed hneeds, World.vaultWith, hfaults, decide_eq_true hneeds]
      rfl
    · rw [tokenToMint_of_not_needed hneeds, decide_eq_false hneeds]
      rfl
  unfold Ended at h
  rw [hvault] at h
  exact h

/-- The work ends as it was described. -/
theorem Ended.describes (present : Option Project) {t : State} {outcome : Except Failure Unit}
    (h : Ended c site connection repo p
      (p.world.backend.lastId + UInt64.ofNat (preparedCost repo present) + 1)
      (preparedProject site repo p.world.backend.lastId present) t outcome q)
    (hbecomes : Becomes repo.fullPath
      (some (finishedProject repo c.now p.object.status
        (p.world.backend.lastId + UInt64.ofNat (preparedCost repo present) + 1)
        (preparedProject site repo p.world.backend.lastId present)))
      (preparedCost repo present + mintCost repo c.now p.object.status.accessTokenUid
        (preparedProject site repo p.world.backend.lastId present).tokens) p.world.backend t)
    (hfaults : p.world.faults = {}) :
    outcome = .ok () ∧
      (livingWork c site repo connection p.object present).Describes repo.fullPath p q := by
  obtain ⟨rfl, rfl⟩ := h.of_no_faults hfaults
  rw [tokens_preparedProject] at hbecomes ⊢
  -- a token that is minted has the last identifier
  have huid : NeedsToken repo c.now p.object.status.accessTokenUid (presentTokens present) →
      p.world.backend.lastId + UInt64.ofNat (preparedCost repo present) + 1 = t.lastId := by
    intro hneeds
    rw [hbecomes.lastId, mintCost, if_pos hneeds, UInt64.ofNat_add, ← UInt64.add_assoc]
    rfl
  refine ⟨rfl, hbecomes, ?_, fun _ => ⟨?_, rfl⟩⟩ <;> dsimp only [livingWork]
  · by_cases hneeds : NeedsToken repo c.now p.object.status.accessTokenUid (presentTokens present)
    · rw [huid hneeds]
    · simp only [vaultAfter, hneeds, decide_false, Bool.false_eq_true, if_false]
  · by_cases hneeds : NeedsToken repo c.now p.object.status.accessTokenUid (presentTokens present)
    · rw [huid hneeds]
    · rw [uidAim_of_not_needed hneeds]

/-- Where the identifiers are enough for the deploy keys, or there are no keys yet, the work takes
all that it needs; the program has halted by its end if there were not as many. -/
theorem describes_livingWork (c : Convergence State) (site : Site) (connection : Connection)
    (hliving : p.deleted = false) (hfaults : p.world.faults = {})
    (h : Found site repo present p.world.backend)
    (hroom : ∀ project, present = some project →
      p.world.backend.lastId.toNat + preparedCost repo present < 2 ^ 64)
    (hmay : present = none → repo.effectiveCreationPolicy ≠ .adopt) :
    let run := (c.convergeOn connection (forge site) repo).runFrom p
    run.1 = .ok () ∧
      (livingWork c site repo connection p.object present).Describes repo.fullPath p run.2 := by
  intro run
  cases present with
  | none =>
      obtain ⟨t, hbecomes, hended⟩ := runFrom_convergeOn_of_missing c site connection hliving
        h.failures h.here (hmay rfl)
      exact Ended.describes none hended hbecomes hfaults
  | some project =>
      have hupdate : ∀ t, Becomes repo.fullPath (some (committed repo project)) 0
          p.world.backend t →
          Yields repo.fullPath (preparedCost repo (some project))
            ((forge site).updateRepository repo) t
            (preparedProject site repo p.world.backend.lastId (some project)) fun _ _ => True := by
        intro t ht
        obtain ⟨hlast, hhosts⟩ := h.hosts_committed ht
        have hyields : Yields repo.fullPath _ ((forge site).updateRepository repo) t _ _ :=
          yields_updateRepository hhosts (ht.failures.trans h.failures)
            (by rw [hlast, deployKeys_committed]; exact hroom project rfl)
        rw [deployKeys_committed, hlast] at hyields
        exact hyields.mono fun _ _ _ _ => trivial
      obtain ⟨t, hbecomes, hended⟩ := runFrom_convergeOn_of_found c site connection hliving
        ⟨h.here, h.failures⟩ (h.listable project rfl) hupdate
      exact Ended.describes (some project) hended hbecomes hfaults

theorem halted_livingWork (c : Convergence State) (site : Site) (connection : Connection)
    {project : Project} (hliving : p.deleted = false)
    (h : Found site repo (some project) p.world.backend)
    (hover : 2 ^ 64 ≤ p.world.backend.lastId.toNat + preparedCost repo (some project)) :
    ((c.convergeOn connection (forge site) repo).runFrom p).2.world.backend.halted = true := by
  refine halted_convergeOn_of_found c site connection hliving ⟨h.here, h.failures⟩
    (h.listable project rfl) fun t ht => ?_
  obtain ⟨hlast, hhosts⟩ := h.hosts_committed ht
  exact halts_updateRepository hhosts (ht.failures.trans h.failures)
    (by rwa [hlast, deployKeys_committed])

/-- A repository that is missing and may not be created ends the work. -/
theorem describes_adopting (c : Convergence State) (site : Site) (connection : Connection)
    (hliving : p.deleted = false)
    (hfailures : p.world.backend.failures = ∅)
    (habsent : p.world.backend.projects[repo.fullPath]? = none)
    (hadopt : repo.effectiveCreationPolicy = .adopt) :
    let run := (c.convergeOn connection (forge site) repo).runFrom p
    let cause : Failure := .notFound ("repository " ++ repo.fullPath ++
      " does not exist and creation policy is Adopt")
    run.1 = .error cause ∧
      (Work.still (.error cause) none p.object).Describes repo.fullPath p run.2 := by
  intro run cause
  have hrun : run = (.error cause,
      Pass.onBackend.set (p.world.backend.record (.getProject repo.fullPath)) p) := by
    have hcreate : ∀ q : Pass State,
        (createMissing (forge site) repo).runFrom q = (.error cause, q) := fun q => by
      simp [createMissing, hadopt, cause]
    have hmissing : p.world.backend.projects[repo.fullPath]?.isSome = false := by
      rw [habsent]
      rfl
    have hcalm := runFrom_convergeOn_of_calm c site connection hliving hfailures hmissing
    rw [show run = _ from hcalm, convergeRepository_eq_prepare, prepare_of_missing, bind_assoc,
      Act.runFrom_bind_of_error (hcreate _)]
  rw [hrun]
  refine ⟨rfl, Work.describes_still ?_ rfl fun hok => absurd hok (by simp)⟩
  exact habsent ▸ becomes_of_reads (reads_record _ _)

end Convergence

namespace Forge.Memory

variable {site : Site} {repo : Descriptor} {s t : State}

/-- No identifier is taken, the program has not halted in between, and the failures to come are the
same. -/
structure SameCounter (s t : State) : Prop where
  lastId : t.lastId = s.lastId
  failures : t.failures = s.failures
  halted : t.halted = s.halted

theorem sameCounter_chains : Act.Chains SameCounter where
  refl _ := ⟨rfl, rfl, rfl⟩
  trans h h' := ⟨h'.lastId.trans h.lastId, h'.failures.trans h.failures, h'.halted.trans h.halted⟩

theorem sameCounter_onProject {α : Type} {path : String}
    (body : Project → Except Failure (α × Project)) (s : State) :
    SameCounter s (onProject path body s).2 := by
  unfold onProject
  split
  · exact sameCounter_chains.refl s
  · split
    · exact sameCounter_chains.refl s
    · exact ⟨rfl, rfl, rfl⟩

theorem respects_sameCounter (site : Site) (repo : Descriptor) :
    (forge site).Respects (fun call => call = .getProject repo.fullPath ∨
      Forge.removalCalls repo call) SameCounter := by
  intro call hcall
  cases call <;> simp only [Forge.removalCalls, reduceCtorEq, or_self, false_or] at hcall
  case getProject path =>
      exact Act.moves_map.2 (moves_answer sameCounter_chains (fun _ => ⟨rfl, rfl, rfl⟩)
        fun s => sameCounter_chains.refl s)
  case deleteProject path =>
      refine Act.moves_map.2
        (moves_answer sameCounter_chains (fun _ => ⟨rfl, rfl, rfl⟩) fun s => ?_)
      unfold deleteProject
      split <;> exact ⟨rfl, rfl, rfl⟩
  case archiveProject path =>
      exact Act.moves_map.2 (moves_answer sameCounter_chains (fun _ => ⟨rfl, rfl, rfl⟩)
        fun s => sameCounter_onProject _ s)

/-- Without failures the removal of a repository leaves what its policy says. -/
theorem ends_retire_becomes (hfailures : s.failures = ∅) :
    (Convergence.retire (forge site) repo).Ends s
      (fun _ t => Becomes repo.fullPath
        (leftOf repo.effectiveDeletionPolicy s.projects[repo.fullPath]?) 0 s t)
      fun _ _ => False := by
  have hcounter : Act.Moves SameCounter (Convergence.retire (forge site) repo) :=
    Convergence.moves_retire sameCounter_chains
      ((respects_sameCounter site repo).mono fun _ => .inl)
      ((respects_sameCounter site repo).mono fun _ => .inr)
  refine ((ends_retire_disposed hfailures).and (hcounter.ends s)).mono ?_ fun _ _ hend => hend.1
  intro _ t hend
  obtain ⟨hdisposed, hsame⟩ := hend
  exact ⟨hdisposed.here, hdisposed.others, by rw [hsame.lastId]; simp, hsame.failures,
    hsame.halted.trans (haltsBy_zero s).symm⟩

theorem ids_of_leftOf {policy : DeletionPolicy} {present : Option Project} {after : Project}
    (h : leftOf policy present = some after) :
    ∃ before, present = some before ∧ after.ids = before.ids := by
  cases policy with
  | delete => cases h
  | archive =>
      obtain ⟨before, hbefore, rfl⟩ := Option.map_eq_some_iff.1 h
      exact ⟨before, hbefore, rfl⟩
  | retain => exact ⟨after, h, rfl⟩
  | unknown => exact ⟨after, h, rfl⟩

end Forge.Memory

namespace Convergence

variable {c : Convergence State} {site : Site} {repo : Descriptor} {connection : Connection}
  {p : Pass State} {present : Option Project}

theorem describes_retiring (c : Convergence State) (site : Site) (connection : Connection)
    (hdeleted : p.deleted = true) (hfailures : p.world.backend.failures = ∅)
    (hhere : p.world.backend.projects[repo.fullPath]? = present) :
    let run := (c.convergeOn connection (forge site) repo).runFrom p
    run.1 = .ok () ∧
      (Work.still (.ok ()) (leftOf repo.effectiveDeletionPolicy present) p.object).Describes
        repo.fullPath p run.2 := by
  intro run
  have hretired : (retire (forge site) repo).Ends p.world.backend _ _ :=
    ends_retire_becomes hfailures
  obtain ⟨_, t, hrun, hbecomes⟩ := hretired.exists_ok
  have hrun : run = (.ok (), Pass.onBackend.set t p) := by
    rw [show run = _ from convergeOn_of_deleted hdeleted, Act.runFrom_within,
      show Pass.onBackend.get p = p.world.backend from rfl, hrun]
  rw [hrun]
  rw [hhere] at hbecomes
  exact ⟨rfl, Work.describes_still hbecomes rfl fun _ => ⟨rfl, rfl⟩⟩

end Convergence

end ForgeSync
