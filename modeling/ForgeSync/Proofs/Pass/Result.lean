import ForgeSync.Proofs.Memory.Numbering
import ForgeSync.Proofs.Pass.Living
import ForgeSync.Proofs.Pass.Runs

/-!
# What comes of a living repository

The whole work on a living repository, with what precedes it: the look whether the repository is
there, and its creation if it is not. The aim is that of the repository that was there, or of an
empty one.

Main statement: `ends_convergeOn_living`.
-/

namespace ForgeSync

open Forge.Memory

/-! ## Where the work starts -/

namespace Forge.Memory

/-- The repository that the work starts from: the one that is there, or one without anything. -/
def origin (site : Site) (repo : Descriptor) (s : State) : Project :=
  s.projects[repo.fullPath]?.getD (newProject site 0 repo.fullPath "")

/-- The repository is there, or it may be created. -/
def MayStart (repo : Descriptor) (s : State) : Prop :=
  repo.fullPath ∈ s.projects ∨ repo.effectiveCreationPolicy ≠ .adopt

/-- The words of the forge are wide enough for so many passes: the counter for the identifiers that
they may take, and positions for the files that there may be. -/
structure Roomy (site : Site) (repo : Descriptor) (passes : Nat) (s : State) : Prop where
  ids : s.lastId.toNat + passes * (repo.deployKeys.size + 2) < 2 ^ 64
  pageSize : 0 < site.pageSize
  pageSize_lt : site.pageSize < Text.bound64
  files : 2 * ((origin site repo s).files.size + repo.templateFiles.size) ≤ Text.bound64

/-- The forge holds the repository soundly, if it holds it at all, and can list its files now and
with those of the template. -/
structure Fit (site : Site) (repo : Descriptor) (s : State) : Prop where
  hosts : ∀ project, s.projects[repo.fullPath]? = some project → Hosts repo.fullPath project s
  before : Countable site (origin site repo s)
  after : Countable site (committed repo (origin site repo s))

variable {site : Site} {repo : Descriptor} {s t : State} {project : Project}

theorem origin_of_some (h : s.projects[repo.fullPath]? = some project) :
    origin site repo s = project := by
  rw [origin, h]
  rfl

theorem origin_of_none (h : s.projects[repo.fullPath]? = none) :
    origin site repo s = newProject site 0 repo.fullPath "" := by
  rw [origin, h]
  rfl

theorem Countable.of_files {other : Project} (h : Countable site project)
    (hfiles : other.files = project.files) : Countable site other :=
  ⟨h.pageSize, h.pageSize_lt, hfiles ▸ h.files⟩

theorem size_files_committed_le (repo : Descriptor) (project : Project) :
    (committed repo project).files.size ≤ project.files.size + repo.templateFiles.size := by
  rw [files_committed]
  exact size_applied_le _ _

theorem Reachable.fit (h : Reachable site s) {passes : Nat} (hroomy : Roomy site repo passes s) :
    Fit site repo s := by
  have hfiles := hroomy.files
  have hcommitted := size_files_committed_le repo (origin site repo s)
  refine ⟨fun project hproject => h.hosts hproject, ⟨hroomy.pageSize, hroomy.pageSize_lt, ?_⟩,
    ⟨hroomy.pageSize, hroomy.pageSize_lt, ?_⟩⟩ <;> omega

theorem Roomy.ids_of_le {passes m : Nat} (h : Roomy site repo passes s) (hle : m ≤ passes) :
    s.lastId.toNat + m * (repo.deployKeys.size + 2) < 2 ^ 64 :=
  Nat.lt_of_le_of_lt (Nat.add_le_add_left (Nat.mul_le_mul_right _ hle) _) h.ids

theorem Roomy.completed {declared : Descriptor} {passes : Nat}
    (h : Roomy site declared passes s) (o : Owner) (deletion : DeletionPolicy)
    (creation : CreationPolicy) :
    Roomy site (completedTemplate o deletion creation declared) passes s :=
  ⟨h.ids, h.pageSize, h.pageSize_lt, h.files⟩

theorem mayStart_of_some (h : s.projects[repo.fullPath]? = some project) : MayStart repo s := by
  refine .inl ?_
  rw [Std.ExtTreeMap.mem_iff_isSome_getElem?, h]
  rfl

theorem not_mayStart_of_none (h : s.projects[repo.fullPath]? = none)
    (hpolicy : repo.effectiveCreationPolicy = .adopt) : ¬ MayStart repo s := by
  intro hmay
  rcases hmay with hmem | hallowed
  · have hsome := Std.ExtTreeMap.mem_iff_isSome_getElem?.1 hmem
    rw [h] at hsome
    cases hsome
  · exact hallowed hpolicy

theorem MayStart.of_stays (h : MayStart repo s) (hstays : Stays repo.fullPath s t) :
    MayStart repo t :=
  h.imp_left hstays

end Forge.Memory

/-! ## The aim of a new repository -/

variable {c : Convergence State} {site : Site} {repo : Descriptor} {connection : Connection}
  {status : RepoStatus} {project : Project} {p : Pass State} {s t : State}

/-- A repository that was just created is as good as an empty one. -/
theorem Forge.Memory.IsNew.aim_eq (h : IsNew site repo project) (now : Calendar.Instant) :
    aim repo now status project = aim repo now status (newProject site 0 repo.fullPath "") := by
  obtain ⟨id, deployKeys, rfl⟩ := h
  exact aim_congr rfl rfl rfl rfl rfl rfl

theorem Forge.Memory.IsNew.description (h : IsNew site repo project) :
    project.repository.description = repo.effectiveDisplayName := by
  obtain ⟨id, deployKeys, rfl⟩ := h
  rfl

theorem Forge.Memory.IsNew.tokens (h : IsNew site repo project) : project.tokens = [] := by
  obtain ⟨id, deployKeys, rfl⟩ := h
  rfl

theorem Forge.Memory.IsNew.files (h : IsNew site repo project) : project.files = ∅ := by
  obtain ⟨id, deployKeys, rfl⟩ := h
  rfl

namespace Convergence

/-! ## Work that was cut short -/

theorem Drifts.trans {first second third : Project} (h : Drifts c repo status first second)
    (h' : Drifts c repo status second third) : Drifts c repo status first third := by
  have hcommitted : (committed repo second).files = (committed repo first).files :=
    congrArg Outline.files h.aim_eq
  refine ⟨h'.aim_eq.trans h.aim_eq, ?_⟩
  obtain hsame | hdone := h'.files
  · exact h.files.imp hsame.trans hsame.trans
  · exact .inr (hdone.trans hcommitted)

/-- A repository that was just created has not drifted from none. -/
theorem drifts_of_isNew (h : IsNew site repo project) :
    Drifts c repo status (newProject site 0 repo.fullPath "") project :=
  ⟨h.aim_eq c.now, .inl h.files⟩

/-- What is left of a forge when the work was cut short. -/
structure Halted (c : Convergence State) (site : Site) (repo : Descriptor) (status : RepoStatus)
    (s t : State) : Prop where
  spends : Spends (repo.deployKeys.size + 2) s t
  hosts : ∀ project, t.projects[repo.fullPath]? = some project → Hosts repo.fullPath project t
  drifts : Drifts c repo status (origin site repo s) (origin site repo t)

theorem halted_of_hosts {after : Project} (hspends : Spends (repo.deployKeys.size + 2) s t)
    (hhosts : Hosts repo.fullPath after t)
    (hdrifts : Drifts c repo status (origin site repo s) after) :
    Halted c site repo status s t := by
  refine ⟨hspends, fun project hproject => ?_, by rwa [origin_of_some hhosts.found]⟩
  obtain rfl := Option.some.inj (hhosts.found.symm.trans hproject)
  exact hhosts

theorem halted_of_absent (hspends : Spends (repo.deployKeys.size + 2) s t)
    (hbefore : s.projects[repo.fullPath]? = none) (hafter : t.projects[repo.fullPath]? = none) :
    Halted c site repo status s t := by
  refine ⟨hspends, fun project hproject => ?_, ?_⟩
  · cases hafter.symm.trans hproject
  · rw [origin_of_none hbefore, origin_of_none hafter]
    exact .refl ..

/-- The repository stays fit for the work. -/
theorem Halted.fit (h : Halted c site repo status s t) (hfit : Fit site repo s) :
    Fit site repo t := by
  have hcommitted : (committed repo (origin site repo t)).files =
      (committed repo (origin site repo s)).files :=
    congrArg Outline.files h.drifts.aim_eq
  refine ⟨h.hosts, ?_, hfit.after.of_files hcommitted⟩
  obtain hsame | hdone := h.drifts.files
  · exact hfit.before.of_files hsame
  · exact hfit.after.of_files hdone

/-! ## Work that was done -/

/-- What there is when the work is done. -/
structure Landed (c : Convergence State) (site : Site) (connection : Connection)
    (repo : Descriptor) (status next : RepoStatus) (s t : State) (after : Project) : Prop where
  hosts : Hosts repo.fullPath after t
  spends : Spends (repo.deployKeys.size + 2) s t
  filled : Filled c site connection repo status next (origin site repo s) after
  /-- On a repository at rest a call that may change something is made only about deploy keys. -/
  quiet : ∀ project, s.projects[repo.fullPath]? = some project →
    Rested repo c.now status project → Carries repo project →
      (t.mutations = s.mutations ↔ repo.KeysSettled)

theorem Filled.of_isNew {phase : Phase} {next : RepoStatus} {after : Project}
    (h : Filled c site connection repo { status with phase } next project after)
    (hnew : IsNew site repo project) :
    Filled c site connection repo status next (newProject site 0 repo.fullPath "") after := by
  obtain ⟨houtline, hcarries, hrested, hnext, hagain⟩ := h
  refine ⟨houtline.trans (hnew.aim_eq c.now), hcarries, hrested, hnext, fun hold => hagain ?_⟩
  refine ⟨?_, hnew.description, hold.ciVariables, ?_⟩
  · rw [hnew.files]
    exact hold.plan
  · rw [hnew.tokens]
    exact hold.remembers

theorem Landed.fit {next : RepoStatus} {after : Project}
    (h : Landed c site connection repo status next s t after) (hfit : Fit site repo s) :
    Fit site repo t := by
  have horigin : origin site repo t = after := origin_of_some h.hosts.found
  have hfiles : after.files = (committed repo (origin site repo s)).files :=
    congrArg Outline.files h.filled.outline
  refine ⟨fun project hproject => ?_, ?_, ?_⟩
  · obtain rfl := Option.some.inj (h.hosts.found.symm.trans hproject)
    exact h.hosts
  · rw [horigin]
    exact hfit.after.of_files hfiles
  · rw [horigin, committed_of_filePlan_eq_nil h.filled.rested.plan]
    exact hfit.after.of_files hfiles

/-! ## The whole work -/

theorem ends_createMissing_living (habsent : p.world.backend.projects[repo.fullPath]? = none)
    (hpolicy : repo.effectiveCreationPolicy ≠ .adopt)
    (hroom : p.world.backend.lastId.toNat + (repo.deployKeys.size + 1) < 2 ^ 64) :
    (createMissing (forge site) repo).Ends p
      (fun _ q => q.world.faults = p.world.faults ∧ q.object = p.object.withPhase .creating ∧
        ∃ project, Hosts repo.fullPath project q.world.backend ∧
          Spends (repo.deployKeys.size + 1) p.world.backend q.world.backend ∧
          IsNew site repo project ∧ Carries repo project)
      fun _ q => p.world.backend.failures ≠ ∅ ∧
        Halted c site repo status p.world.backend q.world.backend := by
  unfold createMissing
  dsimp only
  rw [if_neg hpolicy, Pass.modifyObject, Act.ends_bind, Act.ends_modify]
  refine (ends_recording_backend (p := { p with object := p.object.withPhase .creating })
    (ends_createRepository habsent hroom)).mono ?_ ?_
  · intro _ q hend
    obtain ⟨hcreated, hset⟩ := hend
    exact ⟨by rw [hset]; rfl, by rw [hset]; rfl, hcreated⟩
  · intro _ q hend
    obtain ⟨hfailures, hspends, hend⟩ := hend
    have hmore := hspends.mono (Nat.le_succ (repo.deployKeys.size + 1))
    refine ⟨hfailures, ?_⟩
    obtain hnone | ⟨project, hhosts, hnew⟩ := hend
    · exact halted_of_absent hmore habsent hnone
    · apply halted_of_hosts hmore hhosts
      rw [origin_of_none habsent]
      exact drifts_of_isNew hnew

/-- The work that began with `p` was done, and `q` is what there is then. -/
structure HasLanded (c : Convergence State) (site : Site) (connection : Connection)
    (repo : Descriptor) (p q : Pass State) : Prop where
  mayStart : MayStart repo p.world.backend
  landed : ∃ after, Landed c site connection repo p.object.status q.object.status p.world.backend
    q.world.backend after

/-- The work that began with `p` was cut short, and not without a reason. -/
structure HasHalted (c : Convergence State) (site : Site) (repo : Descriptor)
    (p q : Pass State) : Prop where
  cause : p.world.backend.failures ≠ ∅ ∨ ¬ MayStart repo p.world.backend
  halted : Halted c site repo p.object.status p.world.backend q.world.backend

theorem ends_convergeRepository_of_some (hfit : Fit site repo p.world.backend)
    (hroom : p.world.backend.lastId.toNat + (repo.deployKeys.size + 2) < 2 ^ 64)
    (hfaults : p.world.faults = {})
    (hproject : p.world.backend.projects[repo.fullPath]? = some project) :
    (c.convergeRepository connection (forge site) repo true).Ends p
      (fun _ q => HasLanded c site connection repo p q) fun _ q => HasHalted c site repo p q := by
  have hbefore := hfit.before
  have hcost : fillCost repo true = repo.deployKeys.size + 1 := rfl
  have horigin : origin site repo p.world.backend = project := origin_of_some hproject
  rw [horigin] at hbefore
  rw [convergeRepository_eq]
  apply Act.Ends.mono (endsOn_fill (hfit.hosts project hproject) hbefore hfaults true
    (by omega) nofun)
  · intro _ q hend
    obtain ⟨after, hhosts, hspends, hfilled, hquiet⟩ := hend
    refine ⟨mayStart_of_some hproject, after, hhosts, hspends.mono (by omega), ?_, ?_⟩
    · rwa [horigin]
    · intro other hother
      obtain rfl := Option.some.inj (hproject.symm.trans hother)
      exact hquiet rfl
  · intro _ q hend
    obtain ⟨hfailures, after, hhosts, hspends, hdrifts⟩ := hend
    refine ⟨.inl hfailures, halted_of_hosts (hspends.mono (by omega)) hhosts ?_⟩
    rwa [horigin]

theorem ends_convergeRepository_of_none (hfit : Fit site repo p.world.backend)
    (hroom : p.world.backend.lastId.toNat + (repo.deployKeys.size + 2) < 2 ^ 64)
    (hfaults : p.world.faults = {})
    (hproject : p.world.backend.projects[repo.fullPath]? = none) :
    (c.convergeRepository connection (forge site) repo false).Ends p
      (fun _ q => HasLanded c site connection repo p q) fun _ q => HasHalted c site repo p q := by
  have hbefore := hfit.before
  have hcost : fillCost repo false = 1 := rfl
  have horigin : origin site repo p.world.backend = newProject site 0 repo.fullPath "" :=
    origin_of_none hproject
  rw [horigin] at hbefore
  rw [convergeRepository_eq, if_neg (by simp)]
  by_cases hpolicy : repo.effectiveCreationPolicy = .adopt
  · have hnot : ¬ MayStart repo p.world.backend := not_mayStart_of_none hproject hpolicy
    unfold createMissing
    rw [if_pos hpolicy, Act.ends_bind, Act.ends_bind]
    exact ⟨.inr hnot, halted_of_absent (.refl _ _) hproject hproject⟩
  · refine Act.Ends.bind ((ends_createMissing_living hproject hpolicy (by omega)).mono
      (fun _ _ => id) fun _ q hend => ⟨.inl hend.1, hend.2⟩) ?_
    intro _ q hend
    obtain ⟨hsame, hobject, project, hhosts, hspends, hnew, hcarries⟩ := hend
    have hlast := hspends.le_lastId
    apply Act.Ends.mono (endsOn_fill hhosts (hbefore.of_files hnew.files)
      (hsame.trans hfaults) false (by omega) fun _ => ⟨hcarries, hnew.description⟩)
    · intro _ r hend
      obtain ⟨after, hafter, hmore, hfilled, -⟩ := hend
      refine ⟨.inr hpolicy, after, hafter, (hspends.trans hmore).mono (by omega), ?_, ?_⟩
      · rw [hobject] at hfilled
        rw [horigin]
        exact hfilled.of_isNew hnew
      · intro other hother
        cases hproject.symm.trans hother
    · intro _ r hend
      obtain ⟨hfailures, after, hafter, hmore, hdrifts⟩ := hend
      refine ⟨.inl (hspends.failures ▸ hfailures), halted_of_hosts
        ((hspends.trans hmore).mono (by omega)) hafter ?_⟩
      rw [horigin]
      rw [hobject] at hdrifts
      exact (drifts_of_isNew hnew).trans ⟨hdrifts.aim_eq, hdrifts.files⟩

theorem ends_convergeRepository_living (hfit : Fit site repo p.world.backend)
    (hroom : p.world.backend.lastId.toNat + (repo.deployKeys.size + 2) < 2 ^ 64)
    (hfaults : p.world.faults = {}) :
    (c.convergeRepository connection (forge site) repo
      (p.world.backend.projects[repo.fullPath]?).isSome).Ends p
      (fun _ q => HasLanded c site connection repo p q) fun _ q => HasHalted c site repo p q := by
  cases hproject : p.world.backend.projects[repo.fullPath]? with
  | some project => exact ends_convergeRepository_of_some hfit hroom hfaults hproject
  | none => exact ends_convergeRepository_of_none hfit hroom hfaults hproject

theorem ends_convergeOn_living (hliving : p.deleted = false)
    (hfit : Fit site repo p.world.backend)
    (hroom : p.world.backend.lastId.toNat + (repo.deployKeys.size + 2) < 2 ^ 64)
    (hfaults : p.world.faults = {}) :
    (c.convergeOn connection (forge site) repo).Ends p
      (fun _ q => HasLanded c site connection repo p q) fun _ q => HasHalted c site repo p q := by
  unfold convergeOn Forge.readRepository
  rw [Act.ends_bind, Act.ends_within]
  apply ends_getProject.mono
  · intro _ _ hend
    obtain ⟨rfl, rfl⟩ := hend
    rw [Act.ends_bind, Act.ends_get, if_neg (by simpa [Pass.onBackend] using hliving)]
    have hlooked := spends_record p.world.backend (.getProject repo.fullPath)
    rw [Option.isSome_map]
    refine (ends_convergeRepository_living
      (p := Pass.onBackend.set (p.world.backend.record (.getProject repo.fullPath)) p)
      ⟨fun project hproject => (hfit.hosts project hproject).record _, hfit.before, hfit.after⟩
      hroom hfaults).mono ?_ ?_
    · intro _ q hend
      obtain ⟨hmay, after, hlanded⟩ := hend
      refine ⟨hmay, after, hlanded.hosts, (hlooked.trans hlanded.spends).mono (by omega), ?_, ?_⟩
      · exact hlanded.filled
      · intro project hproject hrested hcarries
        have hquiet := hlanded.quiet project hproject hrested hcarries
        rwa [show (Pass.onBackend.set (p.world.backend.record (.getProject repo.fullPath))
          p).world.backend.mutations = p.world.backend.mutations by
            simp [Pass.onBackend, Forge.Call.isMutating]] at hquiet
    · intro _ q hend
      obtain ⟨hcause, hhalted⟩ := hend
      exact ⟨hcause, (hlooked.trans hhalted.spends).mono (by omega), hhalted.hosts, hhalted.drifts⟩
  · intro _ _ hend
    obtain ⟨hfailures, rfl⟩ := hend
    refine ⟨.inl hfailures, (spends_record _ _).mono (Nat.zero_le _), fun project hproject => ?_,
      .refl ..⟩
    exact (hfit.hosts project hproject).record _

end Convergence

end ForgeSync
