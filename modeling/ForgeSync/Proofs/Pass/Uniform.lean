import ForgeSync.Proofs.Pass.Replay

/-!
# The effect of an undisturbed pass

What a pass comes to is decided by its object, the repository of the object, and the secrets. Of the
rest of the world it takes only the last identifier that was given: the new repository is the one
from any other last identifier, renamed, and the object that is stored remembers the renamed token.
How many identifiers are taken is decided as well; where fewer are left the program halts.

Main statement: `exists_effect`.
-/

namespace ForgeSync

open Forge.Memory

namespace Reconciler

/-- The object has a template that asks for an access token. -/
def WantsToken (o : Owner) : Prop :=
  ∃ declared, o.spec.gitTemplate = some declared ∧ declared.accessToken.isSome = true

/-- A world in which nothing disturbs a pass over an object whose repository, if it has one, belongs
at a path. -/
structure Scene (site : Site) (o : Owner) (path : String) (present : Option Project)
    (secrets : SecretSource) (w : World State) : Prop extends Fetched o w where
  secrets_eq : w.secrets = secrets
  failures : w.backend.failures = ∅
  here : w.backend.projects[path]? = present
  hosts : ∀ project, present = some project → Hosts path project w.backend
  listable : ∀ project, present = some project → Listable site project

variable {r : Reconciler State} {site : Site} {o : Owner} {path : String}
  {present : Option Project} {secrets : SecretSource}

/-- A world with nothing in it but the secrets. -/
def secretsAlone (secrets : SecretSource) : World State :=
  { secrets, backend := {} }

/-- A work that a pass over an object comes to in all worlds where its repository and the secrets
are the same. -/
structure WorksOut (r : Reconciler State) (site : Site) (o : Owner) (path : String)
    (present : Option Project) (secrets : SecretSource) (e : Work) : Prop where
  uniform : e.Uniform o.status.accessTokenUid present
  wanted : e.minted = true → WantsToken o
  comes : ∀ w, Scene site o path present secrets w →
    w.backend.lastId.toNat + e.taken < 2 ^ 64 →
    (r.convergence.converge.runFrom (r.opening o w)).1 = e.outcome ∧
      e.Describes path (r.opening o w) (r.convergence.converge.runFrom (r.opening o w)).2
  halts : ∀ w, Scene site o path present secrets w →
    2 ^ 64 ≤ w.backend.lastId.toNat + e.taken →
    (r.convergence.converge.runFrom (r.opening o w)).2.world.backend.halted = true

/-- Work that takes no identifier does not halt the program. -/
theorem WorksOut.of_still {outcome : Except Failure Unit} {project : Option Project}
    {object : Owner}
    (huniform : (Work.still outcome project object).Uniform o.status.accessTokenUid present)
    (hcomes : ∀ w, Scene site o path present secrets w →
      (r.convergence.converge.runFrom (r.opening o w)).1 = outcome ∧
        (Work.still outcome project object).Describes path (r.opening o w)
          (r.convergence.converge.runFrom (r.opening o w)).2) :
    WorksOut r site o path present secrets (.still outcome project object) where
  uniform := huniform
  wanted := nofun
  comes w hw _ := hcomes w hw
  halts w _ hover := absurd w.backend.lastId.toNat_lt (Nat.not_lt.2 hover)

theorem exists_work_of_access {repo : Descriptor} {connection : Connection}
    (haccess : r.convergence.Access (r.admitted o) (secretsAlone secrets) repo connection
      (forge site))
    (hpath : ∀ declared, o.spec.gitTemplate = some declared → declared.fullPath = path) :
    ∃ e, WorksOut r site o path present secrets e := by
  have hrepo := (kin_admitted r o).completed.symm.trans haccess.template
  obtain ⟨declared, hdeclared, hcompleted⟩ := Option.map_eq_some_iff.1 hrepo
  have hrepoPath : repo.fullPath = path := by
    rw [← hpath declared hdeclared, ← hcompleted]
    rfl
  subst hrepoPath
  have hrun : ∀ w, Scene site o repo.fullPath present secrets w →
      r.convergence.converge.runFrom (r.opening o w) =
        (r.convergence.convergeOn connection (forge site) repo).runFrom
          (Convergence.templated (r.opening o w) repo) := fun w hw =>
    Convergence.converge_of_access (haccess.congr (.refl _ _) hw.secrets_eq
      (congrArg (·.getSecret) hw.faults))
  let object := (r.admitted o).withTemplate repo
  have hhint : object.status.accessTokenUid = o.status.accessTokenUid :=
    congrArg (·.accessTokenUid) (status_admitted r o)
  cases hdeleting : o.isDeleting with
  | true =>
      refine ⟨.still (.ok ()) (leftOf repo.effectiveDeletionPolicy present) object,
        .of_still (Work.uniform_still (fun _ => hhint) fun after hafter => ids_of_leftOf hafter)
          fun w hw => ?_⟩
      rw [hrun w hw]
      obtain ⟨houtcome, hdescribes⟩ := Convergence.describes_retiring r.convergence site
        connection (p := Convergence.templated (r.opening o w) repo) hdeleting hw.failures hw.here
      exact ⟨houtcome, hdescribes.of_templated⟩
  | false =>
      by_cases hmay : present = none → repo.effectiveCreationPolicy ≠ .adopt
      · have hfits : ∀ w, Scene site o repo.fullPath present secrets w →
            (∀ project, present = some project →
              w.backend.lastId.toNat + preparedCost repo present < 2 ^ 64) →
            (r.convergence.converge.runFrom (r.opening o w)).1 = .ok () ∧
              (r.convergence.livingWork site repo connection object present).Describes
                repo.fullPath (r.opening o w)
                (r.convergence.converge.runFrom (r.opening o w)).2 := by
          intro w hw hroom
          rw [hrun w hw]
          obtain ⟨houtcome, hdescribes⟩ := Convergence.describes_livingWork r.convergence site
            connection (p := Convergence.templated (r.opening o w) repo) hdeleting hw.faults
            ⟨hw.failures, hw.here, hw.hosts, hw.listable⟩ hroom hmay
          exact ⟨houtcome, hdescribes.of_templated⟩
        refine ⟨r.convergence.livingWork site repo connection object present,
          hhint ▸ Convergence.uniform_livingWork, fun hminted => ⟨declared, hdeclared, ?_⟩,
          fun w hw hroom => hfits w hw fun _ _ => Nat.lt_of_le_of_lt ?_ hroom,
          fun w hw hover => ?_⟩
        · have hneeds : NeedsToken repo _ _ _ := of_decide_eq_true hminted
          rw [← hcompleted] at hneeds
          exact hneeds.1
        · exact Nat.add_le_add_left (Nat.le_add_right _ _) _
        · by_cases hroom : ∀ project, present = some project →
              w.backend.lastId.toNat + preparedCost repo present < 2 ^ 64
          · have htakes : (r.opening o w).world.backend.haltsBy _ = true :=
              haltsBy_of_le hover
            exact (hfits w hw hroom).2.backend.halted.trans htakes
          · push Not at hroom
            obtain ⟨project, rfl, hover⟩ := hroom
            rw [hrun w hw]
            exact Convergence.halted_livingWork r.convergence site connection
              (p := Convergence.templated (r.opening o w) repo) hdeleting
              ⟨hw.failures, hw.here, hw.hosts, hw.listable⟩ hover
      · obtain ⟨rfl, hadopt⟩ := Classical.not_imp.1 hmay
        let cause : Failure := .notFound ("repository " ++ repo.fullPath ++
          " does not exist and creation policy is Adopt")
        refine ⟨.still (.error cause) none object, .of_still (Work.uniform_still nofun nofun)
          fun w hw => ?_⟩
        rw [hrun w hw]
        obtain ⟨houtcome, hdescribes⟩ := Convergence.describes_adopting r.convergence site
          connection (p := Convergence.templated (r.opening o w) repo) hdeleting hw.failures
          hw.here (Classical.not_not.1 hadopt)
        exact ⟨houtcome, hdescribes.of_templated⟩

theorem exists_work_of_no_access
    (hnone : ∀ repo connection other,
      ¬ r.convergence.Access (r.admitted o) (secretsAlone secrets) repo connection other) :
    ∃ e, WorksOut r site o path present secrets e := by
  -- every such pass ends like the one in the world with nothing but the secrets
  have hstrayed := Convergence.strayed_of_no_access (p := r.opening o (secretsAlone secrets)) hnone
  let last := r.convergence.converge.runFrom (r.opening o (secretsAlone secrets))
  have hhint : last.2.object.status.accessTokenUid = o.status.accessTokenUid := by
    have hadmitted := congrArg (·.accessTokenUid) (status_admitted r o)
    obtain hsame | ⟨repo, -, hsame⟩ := hstrayed.object
    · rw [hsame]
      exact hadmitted
    · rw [hsame]
      exact hadmitted
  refine ⟨.still last.1 present last.2.object, .of_still (Work.uniform_still (fun _ => hhint)
    fun after hafter => ⟨after, hafter, rfl⟩) fun w hw => ?_⟩
  have hrun : r.convergence.converge.runFrom (r.opening o w) = _ :=
    Convergence.converge_elsewhere (p := r.opening o (secretsAlone secrets)) hnone hw.secrets_eq
      hw.faults
  rw [hrun]
  refine ⟨rfl, Work.describes_still ?_ rfl fun _ => ⟨rfl, hstrayed.deleted⟩⟩
  exact hw.here ▸ becomes_of_reads (reads_chains.refl _)

theorem exists_work (hserves : r.registry.Serves (forge site))
    (hpath : ∀ declared, o.spec.gitTemplate = some declared → declared.fullPath = path)
    (present : Option Project) (secrets : SecretSource) :
    ∃ e, WorksOut r site o path present secrets e := by
  by_cases haccess : ∃ repo connection,
    r.convergence.Access (r.admitted o) (secretsAlone secrets) repo connection (forge site)
  · obtain ⟨repo, connection, haccess⟩ := haccess
    exact exists_work_of_access haccess hpath
  · refine exists_work_of_no_access fun repo connection other hreached => ?_
    obtain rfl := hreached.forge_eq hserves
    exact haccess ⟨repo, connection, hreached⟩

/-! ## What a pass comes to -/

/-- What an undisturbed pass over an object comes to. The repository depends on the last identifier
that was given before, and what is stored on the one that was given last of all. -/
structure Effect where
  outcome : Except StepFailure Outcome
  taken : Nat
  minted : Bool
  project : UInt64 → Option Project
  stored : UInt64 → Option Owner

namespace Effect

/-- The run of a pass over an object from a world has the effect. -/
structure Describes (e : Effect) (o : Owner) (path : String) (w : World State)
    (run : Except StepFailure Outcome × Pass State) : Prop where
  outcome : run.1 = e.outcome
  backend : Becomes path (e.project w.backend.lastId) e.taken w.backend run.2.world.backend
  vault : run.2.world.vault = vaultAfter e.minted path run.2.world.backend.lastId w.vault
  stored : run.2.world.store.objects[o.key]? = e.stored run.2.world.backend.lastId
  others : ∀ key, key ≠ o.key → run.2.world.store.objects[key]? = w.store.objects[key]?

/-- The run has the effect if there are as many identifiers left as it takes, else it halts the
program. -/
structure Governs (e : Effect) (o : Owner) (path : String) (w : World State)
    (run : Except StepFailure Outcome × Pass State) : Prop where
  describes : w.backend.lastId.toNat + e.taken < 2 ^ 64 → e.Describes o path w run
  halts : 2 ^ 64 ≤ w.backend.lastId.toNat + e.taken → run.2.world.backend.halted = true

/-- Other identifiers make no difference but the renaming, unless the status remembers one that is
still to come: then there may be nothing to store of it. -/
structure Uniform (e : Effect) (o : Owner) (present : Option Project) : Prop where
  wanted : e.minted = true → WantsToken o
  taken_pos : e.minted = true → 0 < e.taken
  project : ∀ {ρ last last'}, (∀ project, present = some project → ∀ id ∈ project.ids, ρ id = id) →
    Shifts ρ last last' e.taken → e.project last' = (e.project last).map (Project.renamed ρ)
  stored : ∀ u v, (e.minted = true →
      o.status.accessTokenUid ≠ some u ∧ o.status.accessTokenUid ≠ some v) →
    e.stored v = if e.minted then (e.stored u).map (·.remembering v) else e.stored u
  remembers : e.minted = false → ∀ u after, e.stored u = some after →
    after.status.accessTokenUid = o.status.accessTokenUid ∨
      ∃ project, present = some project ∧ ∃ id ∈ project.ids,
        after.status.accessTokenUid = some id

end Effect

variable (r) in
/-- The effect of the work and of what follows it. -/
def effectOf (o : Owner) (work : Work) : Effect where
  outcome := match work.outcome with
    | .error cause => .error ⟨"RepoConvergence", cause⟩
    | .ok () => .ok {}
  taken := work.taken
  minted := work.minted
  project := work.project
  stored uid := match work.outcome with
    | .error _ => some o
    | .ok () => Lifecycle.storedAs o
        ((work.object uid).mapMeta (Lifecycle.finalize (r.rules o) o.isDeleting))

theorem mapMeta_remembering (object : Owner) (uid : UInt64) (f : ObjectMeta → ObjectMeta) :
    (object.remembering uid).mapMeta f = (object.mapMeta f).remembering uid := by
  rw [Owner.mapMeta, Owner.remembering, Owner.mapStatus]
  rfl

theorem accessTokenUid_remembering (object : Owner) (uid : UInt64) :
    (object.remembering uid).status.accessTokenUid = some uid := by
  rw [Owner.remembering, Owner.mapStatus]

theorem storedAs_remembering {object : Owner} {u v : UInt64}
    (huid : object.status.accessTokenUid = some u) (hu : o.status.accessTokenUid ≠ some u)
    (hv : o.status.accessTokenUid ≠ some v) :
    Lifecycle.storedAs o (object.remembering v) =
      (Lifecycle.storedAs o object).map (·.remembering v) := by
  have hdiffers : object.status ≠ o.status := fun hsame => hu (by rw [← hsame, huid])
  have hdiffers' : (object.remembering v).status ≠ o.status := fun hsame =>
    hv (by rw [← hsame]; rfl)
  have hobject : (object.remembering v).metadata = object.metadata ∧
      (object.remembering v).spec = object.spec := ⟨rfl, rfl⟩
  unfold Lifecycle.storedAs
  rw [if_neg hdiffers, if_neg hdiffers, if_neg hdiffers', if_neg hdiffers', hobject.1, hobject.2]
  split
  · rfl
  · split <;> rfl

theorem status_of_storedAs {object after : Owner}
    (h : Lifecycle.storedAs o object = some after) : after.status = object.status := by
  unfold Lifecycle.storedAs at h
  split at h
  · split at h <;> cases h
    · rename_i hsame
      exact hsame.symm
    · rfl
  · split at h
    · cases h
    · split at h <;> cases h <;> rfl

theorem uniform_effectOf {work : Work} (h : work.Uniform o.status.accessTokenUid present)
    (hwanted : work.minted = true → WantsToken o) :
    (effectOf r o work).Uniform o present where
  wanted := hwanted
  taken_pos hminted := (h.minted hminted).2
  project := h.project
  remembers hminted u after hafter := by
    cases houtcome : work.outcome with
    | error failure =>
        rw [effectOf, houtcome, Option.some.injEq] at hafter
        exact .inl (by rw [hafter])
    | ok =>
        simp only [effectOf, houtcome] at hafter
        rw [status_of_storedAs hafter, Owner.mapMeta]
        exact h.remembers hminted houtcome u
  stored u v hcome := by
    have hobject := h.object u v
    cases hminted : work.minted with
    | false =>
        rw [hminted, if_neg Bool.false_ne_true] at hobject
        simp only [effectOf, hobject, hminted, Bool.false_eq_true, if_false]
    | true =>
        obtain ⟨hu, hv⟩ := hcome hminted
        rw [hminted, if_pos rfl] at hobject
        have hself := h.object u u
        rw [hminted, if_pos rfl] at hself
        have huid : ((work.object u).mapMeta
            (Lifecycle.finalize (r.rules o) o.isDeleting)).status.accessTokenUid = some u := by
          rw [hself, mapMeta_remembering, accessTokenUid_remembering]
        simp only [effectOf, hobject, (h.minted hminted).1, hminted, if_true,
          mapMeta_remembering]
        exact storedAs_remembering huid hu hv

theorem describes_effectOf {work : Work} {w : World State} (hfetched : Fetched o w)
    (hallowed : o.isDeleting = true → Lifecycle.isAllowed (r.rules o) o = true)
    (houtcome : (r.convergence.converge.runFrom (r.opening o w)).1 = work.outcome)
    (hdescribes : work.Describes path (r.opening o w)
      (r.convergence.converge.runFrom (r.opening o w)).2) :
    (effectOf r o work).Describes o path w (r.reconcile o w) := by
  have hends := Convergence.ends_converge (c := r.convergence) (holds_opening (r := r) hfetched)
  rw [reconcile_of_admitted r o w hallowed]
  rcases hrun : r.convergence.converge.runFrom (r.opening o w) with ⟨failure | _, p⟩
  · rw [hrun] at houtcome hdescribes
    have hstore : p.world.store = w.store := by rw [hdescribes.world]; rfl
    refine ⟨?_, hdescribes.backend, by rw [hdescribes.world]; rfl, ?_, fun key _ => by rw [hstore]⟩
    · simp only [effectOf, ← houtcome]
    · simp only [effectOf, ← houtcome, hstore, hfetched.stored]
  · have hworked := hends.of_ok hrun
    rw [hrun] at houtcome hdescribes
    obtain ⟨hobject, hdeleted⟩ := hdescribes.object houtcome.symm
    obtain ⟨q, hclose, hclosed, hstored⟩ := Lifecycle.closing_storedAs
      (ready_finalized hfetched hworked) (show (r.rules o).initial = o from rfl)
    have hworld : q.world = { p.world with store := q.world.store } := hclosed.world
    have hbackend : q.world.backend = p.world.backend := by rw [hworld]
    dsimp only
    rw [hclose]
    refine ⟨?_, hbackend ▸ hdescribes.backend, ?_, ?_, fun key hkey => ?_⟩
    · simp only [effectOf, ← houtcome]
    · dsimp only
      rw [hworld]
      dsimp only
      rw [hdescribes.world]
      rfl
    · have hfinal : (r.finalized o p).object =
          (work.object p.world.backend.lastId).mapMeta
            (Lifecycle.finalize (r.rules o) o.isDeleting) := by
        rw [finalized, hobject, hdeleted, opening]
      dsimp only
      rw [hstored, hbackend, hfinal, effectOf, ← houtcome]
    · rw [hclosed.others key hkey, finalized_world, hworked.store]
      rfl

variable (r) in
/-- The effect of an undisturbed pass is one and the same in all worlds where the object, its
repository and the secrets are the same. -/
theorem exists_effect (hserves : r.registry.Serves (forge site)) (o : Owner) (path : String)
    (hpath : ∀ declared, o.spec.gitTemplate = some declared → declared.fullPath = path)
    (present : Option Project) (secrets : SecretSource) :
    ∃ e : Effect, e.Uniform o present ∧
      ∀ w, Scene site o path present secrets w → e.Governs o path w (r.reconcile o w) := by
  by_cases hallowed : o.isDeleting = true → Lifecycle.isAllowed (r.rules o) o = true
  · obtain ⟨work, hwork⟩ := exists_work hserves hpath present secrets
    refine ⟨effectOf r o work, uniform_effectOf hwork.uniform hwork.wanted, fun w hw =>
      ⟨fun hroom => ?_, fun hover => ?_⟩⟩
    · obtain ⟨houtcome, hdescribes⟩ := hwork.comes w hw hroom
      exact describes_effectOf hw.toFetched hallowed houtcome hdescribes
    · rw [backend_of_admitted r o w hallowed]
      exact hwork.halts w hw hover
  · obtain ⟨hdeleting, hrefused⟩ := Classical.not_imp.1 hallowed
    let refusal : StepFailure := ⟨"HandleDeletion", .finalizerNotRemoved⟩
    refine ⟨⟨.error refusal, 0, false, fun _ => present, fun _ => some o⟩,
      ⟨nofun, nofun, ?_, fun _ _ _ => rfl, fun _ _ after hafter => .inl ?_⟩, fun w hw =>
        ⟨fun _ => ?_, fun hover => absurd w.backend.lastId.toNat_lt (Nat.not_lt.2 hover)⟩⟩
    · intro ρ _ _ hfixed _
      cases present with
      | none => rfl
      | some project => rw [Option.map_some, Project.renamed_of_fixed (hfixed project rfl)]
    · rw [Option.some.inj hafter]
    · rw [reconcile_of_refused r o w hdeleting (Bool.eq_false_iff.2 hrefused)]
      exact ⟨rfl, hw.here ▸ becomes_of_reads (reads_chains.refl _), rfl, hw.stored, fun _ _ => rfl⟩

end Reconciler

end ForgeSync
