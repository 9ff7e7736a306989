import ForgeSync.Proofs.Memory.Effects
import ForgeSync.Proofs.Memory.Update
import ForgeSync.Proofs.Pass.Failing
import ForgeSync.Proofs.Pass.Living

/-!
# Undisturbed passes

While no failure awaits the forge, the work on a living repository comes to one definite repository
and one definite status. Only the identifiers depend on what else happened on the forge: they follow
the last one that was given.

Main statements: `runFrom_finish`, `runFrom_convergeOn_of_found` and
`runFrom_convergeOn_of_missing`.
-/

namespace ForgeSync

open Calendar (Instant)
open Forge.Memory

/-! ## Access tokens -/

section Grant

variable (repo : Descriptor) (now : Instant) (hint : Option UInt64)

/-- The token that has to be created, if one has to. -/
def tokenToMint (uid : UInt64) (tokens : List AccessTokenRecord) : Option AccessTokenRecord :=
  if (chosen now tokens hint).isSome then none
  else repo.accessToken.map fun name => mintedToken name now uid

/-- How many identifiers the grant of a token takes. -/
def mintCost (tokens : List AccessTokenRecord) : Nat :=
  if NeedsToken repo now hint tokens then 1 else 0

/-- The token that is remembered after a grant. -/
def uidAim (uid : UInt64) (tokens : List AccessTokenRecord) : Option UInt64 :=
  if repo.accessToken.isSome then some (((chosen now tokens hint).map (·.uid)).getD uid) else hint

end Grant

/-- What the vault keeps of a new token. -/
def storedToken (token : AccessTokenRecord) : StoredToken :=
  ⟨token.uid, secretOf token.uid⟩

/-- The vault once it was handed a new token, if there is one. -/
def World.vaultWith {σ : Type} (w : World σ) (path : String) (kept : Option StoredToken) :
    Except Failure TokenVault :=
  match kept with
  | none => .ok w.vault
  | some token => w.faults.storeToken.elim (.ok ⟨w.vault.tokens.insert path token⟩) .error

theorem World.runFrom_storeToken_eq {σ : Type} (w : World σ) (path : String)
    (grant : AccessTokenGrant) (secret : String) :
    (World.storeToken path grant secret).runFrom w =
      match w.vaultWith path (some ⟨grant.uid, secret⟩) with
      | .error failure => (.error failure, w)
      | .ok vault => (.ok (), { w with vault }) := by
  simp only [World.storeToken, World.guarded, Act.runFrom_ofFunction, World.vaultWith]
  cases w.faults.storeToken <;> rfl

/-- A repository with its variables settled and its token granted. -/
def finishedProject (repo : Descriptor) (now : Instant) (status : RepoStatus) (uid : UInt64)
    (project : Project) : Project :=
  { project with
    ciVariables := variablesAim repo status.lastAppliedCiVariables project.ciVariables
    tokens := project.tokens ++
      (tokenToMint repo now status.accessTokenUid uid project.tokens).toList }

namespace Convergence

variable {α : Type} (c : Convergence State) (site : Site) {repo : Descriptor}
  (connection : Connection) {p : Pass State} {project after : Project} {n : Nat}

/-! ## The end of the work -/

/-- An undisturbed operation of a pass on its forge. -/
theorem runFrom_onBackend_of_yields {path : String} {act : Act State α} {post : α → State → Prop}
    (h : Yields path n act p.world.backend after post) :
    ∃ a t, Becomes path (some after) n p.world.backend t ∧ post a t ∧
      act.runFrom p.world.backend = (.ok a, t) ∧
      (act.within Pass.onBackend).runFrom p = (.ok a, Pass.onBackend.set t p) := by
  obtain ⟨a, t, hrun, hbecomes, hpost⟩ := h.exists_ok
  refine ⟨a, t, hbecomes, hpost, hrun, ?_⟩
  rw [Act.runFrom_within, show Pass.onBackend.get p = p.world.backend from rfl, hrun]

theorem runFrom_settleVariables (h : Calm repo.fullPath project p.world.backend) :
    ∃ t, Becomes repo.fullPath (some { project with
        ciVariables := variablesAim repo p.object.status.lastAppliedCiVariables
          project.ciVariables }) 0 p.world.backend t ∧
      (settleVariables (forge site) repo).runFrom p =
        (.ok (), { Pass.onBackend.set t p with
          object := p.object.mapStatus (remembered repo) }) := by
  have hstill : Becomes repo.fullPath (some project) 0 p.world.backend p.world.backend :=
    h.becomes_of_reads (reads_chains.refl _)
  simp only [settleVariables, Act.runFrom_bind, Act.runFrom_get]
  rw [show AppliedVariables.ofDesired repo.ciVariables = repo.trace from rfl]
  by_cases hsame : p.object.status.lastAppliedCiVariables = some repo.trace
  · have hstatus : remembered repo p.object.status = p.object.status := by
      rw [remembered, appliedAim, if_pos hsame]
    refine ⟨p.world.backend, by rwa [variablesAim, if_pos hsame], ?_⟩
    rw [if_pos hsame, Owner.mapStatus, hstatus]
    rfl
  have hobject : p.object.mapStatus (remembered repo) = p.object.mapStatus fun s =>
      { s with lastAppliedCiVariables :=
          if repo.trace.names.isEmpty then none else some repo.trace } := by
    rw [Owner.mapStatus, remembered, appliedAim, if_neg hsame]
    rfl
  rw [variablesAim, if_neg hsame, hobject, if_neg hsame]
  by_cases hmanaged : (managedNames p.object.status.lastAppliedCiVariables repo.trace).isEmpty
  · refine ⟨p.world.backend, ?_, ?_⟩
    · rwa [List.isEmpty_iff.1 hmanaged, settled_nil]
    · rw [if_neg (by simpa using hmanaged)]
      rfl
  · have hyields : Yields repo.fullPath 0 ((forge site).reconcileVariables repo.fullPath
        (managedNames p.object.status.lastAppliedCiVariables repo.trace) repo.ciVariables)
        p.world.backend _ _ := yields_reconcileVariables h _ _
    obtain ⟨report, t, hbecomes, -, -, hrun⟩ := runFrom_onBackend_of_yields hyields
    refine ⟨t, hbecomes, ?_⟩
    rw [if_pos (by simpa using hmanaged), Act.runFrom_bind, hrun]
    rfl

/-- What granting the token comes to: the repository has the token that is created, if one is, and
the vault keeps it. Only the vault may fail. -/
def Granted (c : Convergence State) (repo : Descriptor) (p : Pass State) (project : Project)
    (run : Except Failure Unit × Pass State) : Prop :=
  let hint := p.object.status.accessTokenUid
  let uid := p.world.backend.lastId + 1
  ∃ t, Becomes repo.fullPath (some { project with
      tokens := project.tokens ++ (tokenToMint repo c.now hint uid project.tokens).toList })
      (mintCost repo c.now hint project.tokens) p.world.backend t ∧
    run = match p.world.vaultWith repo.fullPath
        ((tokenToMint repo c.now hint uid project.tokens).map storedToken) with
      | .error failure => (.error failure, Pass.onBackend.set t p)
      | .ok vault => (.ok (),
        { p with
          object := p.object.mapStatus fun s =>
            { s with accessTokenUid := uidAim repo c.now hint uid project.tokens }
          world := { p.world with backend := t, vault } })

theorem granted_of_unwanted (h : Calm repo.fullPath project p.world.backend)
    (hwanted : repo.accessToken = none) :
    Granted c repo p project ((c.grantToken (forge site) repo).runFrom p) := by
  have hmint : ∀ hint uid, tokenToMint repo c.now hint uid project.tokens = none := by
    simp [tokenToMint, hwanted]
  have hcost : ∀ hint, mintCost repo c.now hint project.tokens = 0 := by
    simp [mintCost, NeedsToken, hwanted]
  refine ⟨p.world.backend, ?_, ?_⟩
  · rw [hmint, hcost, Option.toList_none, List.append_nil]
    exact h.becomes_of_reads (reads_chains.refl _)
  · simp only [grantToken, hwanted, hmint, World.vaultWith, uidAim]
    rfl

theorem granted_of_chosen (h : Calm repo.fullPath project p.world.backend) {name : String}
    (hwanted : repo.accessToken = some name) {token : AccessTokenRecord}
    (hchosen : chosen c.now project.tokens p.object.status.accessTokenUid = some token) :
    Granted c repo p project ((c.grantToken (forge site) repo).runFrom p) := by
  have hmint : ∀ uid,
      tokenToMint repo c.now p.object.status.accessTokenUid uid project.tokens = none := by
    simp [tokenToMint, hchosen]
  have hcost : mintCost repo c.now p.object.status.accessTokenUid project.tokens = 0 := by
    simp [mintCost, NeedsToken, hchosen]
  have hyields : Yields repo.fullPath 0 ((forge site).ensureAccessToken c.now repo.fullPath name
      p.object.status.accessTokenUid) p.world.backend _ _ :=
    yields_ensureAccessToken_of_chosen h name hchosen
  obtain ⟨grant, t, hbecomes, rfl, -, hrun⟩ := runFrom_onBackend_of_yields hyields
  refine ⟨t, ?_, ?_⟩
  · rwa [hmint, hcost, Option.toList_none, List.append_nil]
  · simp only [grantToken, hwanted, Act.runFrom_bind, Act.runFrom_get]
    rw [hrun, hmint]
    simp only [World.vaultWith, uidAim, hwanted, hchosen]
    rfl

theorem granted_of_minted (h : Calm repo.fullPath project p.world.backend) {name : String}
    (hwanted : repo.accessToken = some name)
    (hchosen : chosen c.now project.tokens p.object.status.accessTokenUid = none) :
    Granted c repo p project ((c.grantToken (forge site) repo).runFrom p) := by
  obtain ⟨uid, huid⟩ : ∃ uid, uid = p.world.backend.lastId + 1 := ⟨_, rfl⟩
  have hmint : tokenToMint repo c.now p.object.status.accessTokenUid uid project.tokens =
      some (mintedToken name c.now uid) := by
    simp [tokenToMint, hwanted, hchosen]
  have hcost : mintCost repo c.now p.object.status.accessTokenUid project.tokens = 1 := by
    simp [mintCost, NeedsToken, hwanted, hchosen]
  have hyields : Yields repo.fullPath 1 ((forge site).ensureAccessToken c.now repo.fullPath name
      p.object.status.accessTokenUid) p.world.backend _ _ :=
    yields_ensureAccessToken_of_none h name hchosen
  obtain ⟨grant, t, hbecomes, rfl, -, hrun⟩ := runFrom_onBackend_of_yields hyields
  rw [← huid] at hbecomes hrun
  rw [Granted, ← huid, hmint, hcost]
  refine ⟨t, hbecomes, ?_⟩
  simp only [grantToken, hwanted, Act.runFrom_bind, Act.runFrom_get]
  rw [hrun]
  have hstore := World.runFrom_storeToken_eq (Pass.onBackend.set t p).world repo.fullPath
    ⟨uid, c.now.addDays tokenLifetimeDays, some (secretOf uid)⟩ (secretOf uid)
  rw [show (Pass.onBackend.set t p).world.vaultWith repo.fullPath (some ⟨uid, secretOf uid⟩) =
    p.world.vaultWith repo.fullPath ((some (mintedToken name c.now uid)).map storedToken)
    from rfl] at hstore
  cases hkept : p.world.vaultWith repo.fullPath
    ((some (mintedToken name c.now uid)).map storedToken) with
  | error failure =>
      rw [hkept] at hstore
      dsimp only
      rw [Act.runFrom_bind, Pass.runFrom_onWorld hstore]
  | ok vault =>
      rw [hkept] at hstore
      dsimp only
      rw [Act.runFrom_bind, Pass.runFrom_onWorld hstore]
      simp only [uidAim, hwanted, hchosen]
      rfl

theorem runFrom_grantToken (h : Calm repo.fullPath project p.world.backend) :
    Granted c repo p project ((c.grantToken (forge site) repo).runFrom p) := by
  cases hwanted : repo.accessToken with
  | none => exact granted_of_unwanted c site h hwanted
  | some name =>
      cases hchosen : chosen c.now project.tokens p.object.status.accessTokenUid with
      | some token => exact granted_of_chosen c site h hwanted hchosen
      | none => exact granted_of_minted c site h hwanted hchosen

/-- What the work on a living repository comes to once the repository is there: the end of it
fails only if the vault does. -/
def Ended (c : Convergence State) (site : Site) (connection : Connection) (repo : Descriptor)
    (p : Pass State) (uid : UInt64) (project : Project) (t : State) (outcome : Except Failure Unit)
    (q : Pass State) : Prop :=
  match p.world.vaultWith repo.fullPath
    ((tokenToMint repo c.now p.object.status.accessTokenUid uid project.tokens).map
      storedToken) with
  | .error failure => outcome = .error failure ∧ q.world = { p.world with backend := t }
  | .ok vault => outcome = .ok () ∧
    q = { p with
      object := p.object.mapStatus fun s => createdStatus site connection repo s
        (uidAim repo c.now p.object.status.accessTokenUid uid project.tokens)
      world := { p.world with backend := t, vault } }

theorem runFrom_finish (h : Calm repo.fullPath project p.world.backend) :
    let uid := p.world.backend.lastId + 1
    ∃ t, Becomes repo.fullPath (some (finishedProject repo c.now p.object.status uid project))
        (mintCost repo c.now p.object.status.accessTokenUid project.tokens) p.world.backend t ∧
      Ended c site connection repo p uid project t
        ((c.finish connection (forge site) repo).runFrom p).1
        ((c.finish connection (forge site) repo).runFrom p).2 := by
  intro uid
  obtain ⟨t, hsettled, hsettle⟩ := runFrom_settleVariables site h
  let q : Pass State :=
    { Pass.onBackend.set t p with object := p.object.mapStatus (remembered repo) }
  have hlast : t.lastId + 1 = uid := by rw [hsettled.lastId]; simp [uid]
  obtain ⟨u, hgranted, hgrant⟩ :=
    runFrom_grantToken c site (p := q) (.of_becomes h.failures hsettled)
  have hq : q.world.backend.lastId + 1 = uid := hlast
  rw [hq] at hgranted hgrant
  refine ⟨u, (hsettled.trans hgranted).cast (Nat.zero_add _), ?_⟩
  rw [finish, Act.runFrom_bind_of_ok hsettle, Act.runFrom_bind, hgrant]
  unfold Ended
  -- the settlement leaves the hint and the vault alone
  rw [show q.object.status.accessTokenUid = p.object.status.accessTokenUid from rfl,
    show q.world.vaultWith = p.world.vaultWith from rfl]
  dsimp only
  cases p.world.vaultWith repo.fullPath ((tokenToMint repo c.now p.object.status.accessTokenUid uid
    project.tokens).map storedToken) with
  | error failure => exact ⟨rfl, rfl⟩
  | ok vault => exact ⟨rfl, rfl⟩

/-! ## The work on a living repository -/

/-- The look whether the repository is there succeeds. -/
theorem runFrom_convergeOn_of_calm {existed : Bool} (hliving : p.deleted = false)
    (hfailures : p.world.backend.failures = ∅)
    (hexisted : p.world.backend.projects[repo.fullPath]?.isSome = existed) :
    (c.convergeOn connection (forge site) repo).runFrom p =
      (c.convergeRepository connection (forge site) repo existed).runFrom
        (Pass.onBackend.set (p.world.backend.record (.getProject repo.fullPath)) p) := by
  have hends : ((forge site).readRepository repo).Ends p.world.backend
      (fun remote t => remote = p.world.backend.projects[repo.fullPath]?.map (·.repository) ∧
        t = p.world.backend.record (.getProject repo.fullPath)) fun _ _ => False :=
    ends_getProject.mono (fun _ _ hend => hend) fun _ _ hend => hend.1 hfailures
  obtain ⟨remote, t, hread, rfl, rfl⟩ := hends.exists_ok
  rw [convergeOn_of_living hliving, runFrom_readRepository hread]
  dsimp only
  rw [Option.isSome_map, hexisted]

/-- From a prepared repository the work comes to its end, whatever phase the object is in. -/
theorem ended_of_prepared (existed : Bool) (phase : Phase) {t : State}
    (hliving : p.deleted = false) (hfailures : p.world.backend.failures = ∅)
    (hexisted : p.world.backend.projects[repo.fullPath]?.isSome = existed)
    (hprepared : (prepare (forge site) repo existed).runFrom
      (Pass.onBackend.set (p.world.backend.record (.getProject repo.fullPath)) p) =
        (.ok (), Pass.onBackend.set t { p with object := p.object.withPhase phase }))
    (hbecomes : Becomes repo.fullPath (some after) n p.world.backend t) :
    let uid := p.world.backend.lastId + UInt64.ofNat n + 1
    ∃ u, Becomes repo.fullPath (some (finishedProject repo c.now p.object.status uid after))
        (n + mintCost repo c.now p.object.status.accessTokenUid after.tokens) p.world.backend u ∧
      Ended c site connection repo p uid after u
        ((c.convergeOn connection (forge site) repo).runFrom p).1
        ((c.convergeOn connection (forge site) repo).runFrom p).2 := by
  intro uid
  let q := Pass.onBackend.set t { p with object := p.object.withPhase phase }
  obtain ⟨u, hfinished, hended⟩ :=
    runFrom_finish c site connection (p := q) (.of_becomes hfailures hbecomes)
  have huid : q.world.backend.lastId + 1 = uid := congrArg (· + 1) hbecomes.lastId
  rw [huid] at hfinished hended
  refine ⟨u, hbecomes.trans hfinished, ?_⟩
  rw [runFrom_convergeOn_of_calm c site connection hliving hfailures hexisted,
    convergeRepository_eq_prepare, Act.runFrom_bind_of_ok hprepared]
  exact hended

/-- The files of a repository that is there are committed behind the look at it. -/
theorem runFrom_commit_of_found (h : Calm repo.fullPath project p.world.backend)
    (hlist : Listable site project) :
    ∃ t, Becomes repo.fullPath (some (committed repo project)) 0 p.world.backend t ∧
      (recording (((forge site).commitTemplate repo).within Pass.onBackend)).runFrom
        (Pass.onBackend.set (p.world.backend.record (.getProject repo.fullPath)) p) =
          (.ok (), Pass.onBackend.set t p) := by
  let s := p.world.backend.record (.getProject repo.fullPath)
  have hread : Becomes repo.fullPath (some project) 0 p.world.backend s :=
    h.becomes_of_reads (reads_record _ _)
  have hyields : Yields repo.fullPath 0 ((forge site).commitTemplate repo) s
      (committed repo project) _ := yields_commitTemplate (h.record _) hlist
  obtain ⟨_, t, hcommitted, -, hcommit, -⟩ :=
    runFrom_onBackend_of_yields (p := Pass.onBackend.set s p) hyields
  exact ⟨t, hread.trans hcommitted, runFrom_recording_of_ok hcommit⟩

/-- The work on a repository that is there, if its update comes to `after`. -/
theorem runFrom_convergeOn_of_found (hliving : p.deleted = false)
    (h : Calm repo.fullPath project p.world.backend) (hlist : Listable site project)
    (hupdate : ∀ t, Becomes repo.fullPath (some (committed repo project)) 0 p.world.backend t →
      Yields repo.fullPath n ((forge site).updateRepository repo) t after fun _ _ => True) :
    let uid := p.world.backend.lastId + UInt64.ofNat n + 1
    ∃ t, Becomes repo.fullPath (some (finishedProject repo c.now p.object.status uid after))
        (n + mintCost repo c.now p.object.status.accessTokenUid after.tokens) p.world.backend t ∧
      Ended c site connection repo p uid after t
        ((c.convergeOn connection (forge site) repo).runFrom p).1
        ((c.convergeOn connection (forge site) repo).runFrom p).2 := by
  obtain ⟨t, hcommitted, hcommit⟩ := runFrom_commit_of_found site h hlist
  obtain ⟨_, u, hupdated, -, -, hupdate⟩ := runFrom_onBackend_of_yields
    (p := Pass.onBackend.set t p) (hupdate t hcommitted)
  refine ended_of_prepared c site connection true p.object.status.phase hliving h.failures
    (by rw [h.found]; rfl) ?_ ((hcommitted.trans hupdated).cast (Nat.zero_add n))
  rw [prepare_of_existed, Act.runFrom_bind_of_ok hcommit]
  exact Act.runFrom_bind_of_ok hupdate

/-- If the update halts the program, so does the work. -/
theorem halted_convergeOn_of_found (hliving : p.deleted = false)
    (h : Calm repo.fullPath project p.world.backend) (hlist : Listable site project)
    (hupdate : ∀ t, Becomes repo.fullPath (some (committed repo project)) 0 p.world.backend t →
      Halts ((forge site).updateRepository repo) t) :
    ((c.convergeOn connection (forge site) repo).runFrom p).2.world.backend.halted = true := by
  obtain ⟨t, hcommitted, hcommit⟩ := runFrom_commit_of_found site h hlist
  have hhalts := hupdate t hcommitted
  have hexisted : p.world.backend.projects[repo.fullPath]?.isSome = true := by rw [h.found]; rfl
  rw [runFrom_convergeOn_of_calm c site connection hliving h.failures hexisted,
    convergeRepository_eq_prepare, prepare_of_existed, bind_assoc,
    Act.runFrom_bind_of_ok hcommit, bind_assoc]
  -- what comes behind the update does not set the program going again
  have hfinish : Act.Moves (Pass.Along Onward) (c.finish connection (forge site) repo) :=
    moves_finish onward_chains c connection ((respects_onward site).mono fun _ _ => trivial)
  exact Onward.halted ((Pass.Along.chains onward_chains).behind (fun _ => hfinish) _).backend
    hhalts

/-- The work on a repository that is missing and may be created. -/
theorem runFrom_convergeOn_of_missing (hliving : p.deleted = false)
    (hfailures : p.world.backend.failures = ∅)
    (habsent : p.world.backend.projects[repo.fullPath]? = none)
    (hpolicy : repo.effectiveCreationPolicy ≠ .adopt) :
    let created := committed repo (createdProject site repo p.world.backend.lastId)
    let n := 1 + repo.deployKeys.size
    let uid := p.world.backend.lastId + UInt64.ofNat n + 1
    ∃ t, Becomes repo.fullPath (some (finishedProject repo c.now p.object.status uid created))
        (n + mintCost repo c.now p.object.status.accessTokenUid created.tokens)
        p.world.backend t ∧
      Ended c site connection repo p uid created t
        ((c.convergeOn connection (forge site) repo).runFrom p).1
        ((c.convergeOn connection (forge site) repo).runFrom p).2 := by
  let s := p.world.backend.record (.getProject repo.fullPath)
  have hread : Becomes repo.fullPath none 0 p.world.backend s := habsent ▸
    becomes_of_reads (reads_record _ _)
  have hcreation : ((forge site).createRepository repo).Ends s _ _ :=
    ends_createRepository_calm hfailures habsent
  obtain ⟨_, t, hcreate, hcreated⟩ := hcreation.exists_ok
  let q : Pass State :=
    Pass.onBackend.set t { p with object := p.object.withPhase .creating }
  have hcreated := hread.trans hcreated
  have hyields : Yields repo.fullPath 0 ((forge site).commitTemplate repo) t
      (committed repo (createdProject site repo s.lastId)) _ :=
    yields_commitTemplate (.of_becomes hfailures hcreated) (.inl rfl)
  obtain ⟨_, u, hcommitted, -, hcommit, -⟩ := runFrom_onBackend_of_yields (p := q) hyields
  refine ended_of_prepared c site connection false .creating hliving hfailures
    (by rw [habsent]; rfl) ?_ ((hcreated.trans hcommitted).cast (by omega))
  rw [prepare_of_missing, createMissing_of_allowed _ hpolicy, bind_assoc, Pass.modifyObject,
    Act.runFrom_bind_of_ok (Act.runFrom_modify _ _),
    Act.runFrom_bind_of_ok (runFrom_recording_of_ok hcreate)]
  exact Act.runFrom_bind_of_ok (runFrom_recording_of_ok hcommit)

end Convergence

end ForgeSync
