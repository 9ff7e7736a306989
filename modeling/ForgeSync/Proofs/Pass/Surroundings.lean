import ForgeSync.Proofs.Memory.Surroundings
import ForgeSync.Proofs.Pass.Ownership

/-!
# What a pass leaves alone on the forge

A pass on a living object touches one repository, and of that one only what the template is about.
All calls up to the token keep the rest, as long as the status remembers no other variables than
those that may be managed; after that there is at most one new token. Nothing of this depends on
which calls fail, or where the pass ends.

Main statements: `within_convergeOn` and `within_of_reconcile`.
-/

namespace ForgeSync

open Forge.Memory

/-! ## Work up to the token -/

namespace Pass

variable {repo : Descriptor} {names : List String}

/-- While the status remembers only variables of `names`, the repository is spared, and no other
ones are remembered later. -/
def Spares (repo : Descriptor) (names : List String) (p q : Pass State) : Prop :=
  namesOf p.object.status.lastAppliedCiVariables ⊆ names →
    Within repo.fullPath (SparesAll repo names) p.world.backend q.world.backend ∧
      namesOf q.object.status.lastAppliedCiVariables ⊆ names

theorem Spares.of_same {p q : Pass State} (hbackend : q.world.backend = p.world.backend)
    (happlied : q.object.status.lastAppliedCiVariables =
      p.object.status.lastAppliedCiVariables) : Spares repo names p q := by
  intro hnames
  rw [hbackend, happlied]
  exact ⟨.of_projects (sparesAll_chains repo names).refl rfl, hnames⟩

theorem spares_chains (repo : Descriptor) (names : List String) :
    Act.Chains (Spares repo names) where
  refl _ := .of_same rfl rfl
  trans h h' := by
    intro hnames
    obtain ⟨hfirst, hmid⟩ := h hnames
    obtain ⟨hsecond, hlast⟩ := h' hmid
    exact ⟨(Within.chains _ (sparesAll_chains repo names)).trans hfirst hsecond, hlast⟩

theorem spares_records (repo : Descriptor) (names : List String) :
    Records (Spares repo names) where
  toChains := spares_chains repo names
  phase _ _ := .of_same rfl rfl
  version _ _ := .of_same rfl rfl
  write p := .of_same (moves_updateStatus (R := fun a b => b = a)
    ⟨fun _ => rfl, fun h h' => h'.trans h⟩ p.object p).backend rfl

theorem moves_spares_onBackend {α : Type} {act : Act State α}
    (h : Act.Moves (Within repo.fullPath (SparesAll repo names)) act) :
    Act.Moves (Spares repo names) (act.within onBackend) :=
  fun p hnames => ⟨h p.world.backend, hnames⟩

end Pass

namespace Convergence

variable {c : Convergence State} {site : Site} {repo : Descriptor} {names : List String}
  {connection : Connection} {p : Pass State}

theorem moves_spares_prepare (existed : Bool) :
    Act.Moves (Pass.Spares repo names) (prepare (forge site) repo existed) := by
  have hR := Within.chains repo.fullPath (sparesAll_chains repo names)
  have hcalls := respects_spares site repo names
  exact (Pass.spares_records repo names).moves_prepare
    (Pass.moves_spares_onBackend (Forge.moves_createRepository hR
      (hcalls.mono fun _ hcall => .inr (.inl hcall))))
    (Pass.moves_spares_onBackend (Forge.moves_commitTemplate_planned hR
      (hcalls.mono fun _ hcall => .inl hcall)))
    (Pass.moves_spares_onBackend (Forge.moves_updateRepository hR
      (hcalls.mono fun _ hcall => .inr (.inr (.inl hcall))))) existed

/-- Only what is remembered or wanted is managed. -/
theorem moves_spares_settleVariables (hwanted : repo.ciVariables.map (·.key) ⊆ names) :
    Act.Moves (Pass.Spares repo names) (settleVariables (forge site) repo) := by
  have hR := Within.chains repo.fullPath (sparesAll_chains repo names)
  have htrace : repo.trace.names ⊆ names := fun name hname =>
    hwanted (Descriptor.mem_names_trace.1 hname)
  refine moves_settleVariables_of (Pass.spares_chains repo names) (fun p hnames => ?_) fun p => ?_
  · refine Pass.moves_spares_onBackend (Forge.moves_reconcileVariables hR
      ((respects_spares site repo names).mono fun _ hcall =>
        .inr (.inr (.inr ⟨_, fun name hname => ?_, hcall⟩)))) p hnames
    exact (mem_managedNames.1 hname).elim (fun h => hnames h) fun h => htrace h
  · intro _
    refine ⟨.of_projects (sparesAll_chains repo names).refl rfl, ?_⟩
    change namesOf (if repo.trace.names.isEmpty then none else some repo.trace) ⊆ names
    split
    · exact List.nil_subset names
    · exact htrace

/-! ## The token and the end -/

theorem within_grantToken (c : Convergence State) (site : Site) (repo : Descriptor)
    (p : Pass State) :
    Within repo.fullPath AddsToken p.world.backend
      ((c.grantToken (forge site) repo).runFrom p).2.world.backend := by
  -- behind the operation on the forge nothing touches the forge
  have hsame : Act.Chains fun a b : State => b = a := ⟨fun _ => rfl, fun h h' => h'.trans h⟩
  unfold grantToken
  cases repo.accessToken with
  | none => exact .of_projects addsToken_refl rfl
  | some name =>
      have hensure := moves_ensureAccessToken_within site c.now repo.fullPath name
        p.object.status.accessTokenUid p.world.backend
      rw [Act.runFrom_bind_of_ok (Act.runFrom_get p)]
      dsimp only
      rw [Act.runFrom_bind, Act.runFrom_within,
        show Pass.onBackend.get p = p.world.backend from rfl]
      rcases hrun : ((forge site).ensureAccessToken c.now repo.fullPath name
        p.object.status.accessTokenUid).runFrom p.world.backend with ⟨failure | grant, after⟩ <;>
        rw [hrun] at hensure <;> dsimp only at hensure ⊢
      · exact hensure
      · have hP := Pass.Along.chains hsame
        cases grant.token with
        | none => exact hensure
        | some token =>
            have hrest := hP.moves_bind
              (Pass.moves_storeToken hsame repo.fullPath grant token) fun _ =>
                Pass.moves_modifyObject hsame (·.mapStatus fun s =>
                  { s with accessTokenUid := some grant.uid })
            exact (hrest (Pass.onBackend.set after p)).backend ▸ hensure

/-- From a pass on whose status only variables of `names` stand, the work touches one repository and
spares it. -/
theorem within_convergeRepository (existed : Bool)
    (hnames : namesOf p.object.status.lastAppliedCiVariables ⊆ names)
    (hwanted : repo.ciVariables.map (·.key) ⊆ names) :
    Within repo.fullPath (SparesTokens repo names) p.world.backend
      ((c.convergeRepository connection (forge site) repo existed).runFrom p).2.world.backend := by
  have hfirst : Act.Moves (Pass.Spares repo names)
      (prepare (forge site) repo existed >>= fun _ => settleVariables (forge site) repo) :=
    (Pass.spares_chains repo names).moves_bind (moves_spares_prepare existed)
      fun _ => moves_spares_settleVariables hwanted
  have hwork : c.convergeRepository connection (forge site) repo existed =
      (prepare (forge site) repo existed >>= fun _ => settleVariables (forge site) repo) >>=
        fun _ => c.grantToken (forge site) repo >>= fun _ =>
          Pass.modifyObject (·.mapStatus fun s =>
            { s with
              providerType := some (forge site).providerType
              url := some ((forge site).cloneUrl repo)
              hostKeys := connection.hostKeys
              phase := .created }) := by
    rw [convergeRepository_eq_prepare, finish, bind_assoc]
  have hspared := (hfirst p hnames).1
  rw [hwork, Act.runFrom_bind]
  rcases hrun : (prepare (forge site) repo existed >>= fun _ =>
    settleVariables (forge site) repo).runFrom p with ⟨failure | _, q⟩ <;>
    rw [hrun] at hspared <;> dsimp only at hspared ⊢
  · exact hspared.mono fun h => .of_all h
  · have hgranted := within_grantToken c site repo q
    rw [Act.runFrom_bind]
    rcases hgrant : (c.grantToken (forge site) repo).runFrom q with ⟨failure | _, u⟩ <;>
      rw [hgrant] at hgranted <;>
      exact hspared.trans_into hgranted fun h h' => .of_adds h h'

theorem within_convergeOn (hliving : p.deleted = false)
    (hnames : namesOf p.object.status.lastAppliedCiVariables ⊆ names)
    (hwanted : repo.ciVariables.map (·.key) ⊆ names) :
    Within repo.fullPath (SparesTokens repo names) p.world.backend
      ((c.convergeOn connection (forge site) repo).runFrom p).2.world.backend := by
  have hrefl : ∀ project, SparesTokens repo names project project := fun project =>
    .of_all ((sparesAll_chains repo names).refl project)
  have hread : ((forge site).getProject repo.fullPath).Ends p.world.backend _ _ := ends_getProject
  rw [convergeOn_of_living hliving, Act.runFrom_within,
    show Pass.onBackend.get p = p.world.backend from rfl]
  unfold Forge.readRepository
  rcases hrun : ((forge site).getProject repo.fullPath).runFrom p.world.backend with
    ⟨failure | remote, after⟩ <;> dsimp only
  · rw [(hread.of_error hrun).2]
    exact .of_projects hrefl rfl
  · rw [(hread.of_ok hrun).2]
    have hlisted : Within repo.fullPath (fun a b => a = b) p.world.backend
        (p.world.backend.record (.getProject repo.fullPath)) := .of_projects (fun _ => rfl) rfl
    exact hlisted.trans_into
      (within_convergeRepository (p := Pass.onBackend.set _ p) _ hnames hwanted)
      fun heq hspared => heq ▸ hspared

end Convergence

/-! ## The whole pass -/

namespace Reconciler

variable {r : Reconciler State} {o : Owner} {w : World State} {site : Site}

/-- The variables that a pass may manage: those that the last pass has left a note of and those that
the template lists. -/
def manageable (o : Owner) (declared : Descriptor) : List String :=
  namesOf o.status.lastAppliedCiVariables ++ declared.ciVariables.map (·.key)

/-- A pass on a living object leaves all repositories alone but the one of its template, and that
one it spares: whatever fails, on the forge and elsewhere, and however the pass ends. -/
theorem within_of_reconcile (hserves : r.registry.Serves (forge site))
    (hliving : o.isDeleting = false) :
    (o.spec.gitTemplate = none → (r.reconcile o w).2.world.backend = w.backend) ∧
      ∀ declared, o.spec.gitTemplate = some declared →
        Within declared.fullPath (SparesTokens declared (manageable o declared))
          w.backend (r.reconcile o w).2.world.backend := by
  have hkin := kin_admitted r o
  refine ⟨fun hnone => backend_of_no_access fun repo connection other haccess => ?_,
    fun declared hdeclared => ?_⟩
  · have hrepo := haccess.template
    rw [hkin.completed, Convergence.completed, hnone] at hrepo
    cases hrepo
  by_cases haccess : ∃ repo connection other,
      r.convergence.Access (r.admitted o) w repo connection other
  · obtain ⟨repo, connection, other, haccess⟩ := haccess
    obtain rfl := haccess.forge_eq hserves
    have hrepo := haccess.template
    rw [hkin.completed, Convergence.completed, hdeclared, Option.map_some,
      Option.some.injEq] at hrepo
    have hstatus : (Convergence.templated (r.opening o w) repo).object.status = o.status := by
      rw [templated_opening hliving]
    have hspared : Within repo.fullPath (SparesTokens repo (manageable o declared)) w.backend
        ((r.convergence.convergeOn connection (forge site) repo).runFrom
          (Convergence.templated (r.opening o w) repo)).2.world.backend :=
      Convergence.within_convergeOn (p := Convergence.templated (r.opening o w) repo) hliving
        (by rw [hstatus]; exact List.subset_append_left _ _)
        (by rw [← hrepo]; exact List.subset_append_right _ _)
    rw [backend_of_admitted r o w (by simp [hliving]),
      Convergence.converge_of_access (p := r.opening o w) haccess]
    subst hrepo
    exact hspared.mono fun h => ⟨⟨h.repository, h.unnamed, h.written, h.unmanaged⟩, h.tokens⟩
  · rw [backend_of_no_access fun repo connection other hreached =>
      haccess ⟨repo, connection, other, hreached⟩]
    exact .of_projects (fun project => .of_all ((sparesAll_chains _ _).refl project)) rfl

/-- The repository has a file of its own, and the pass ends at the access token. -/
theorem within_of_reconcile_tokenTenant :
    let w := sampleWorld (((({} : State).seedProject sampleSite "acme/r").seedFile "acme/r" "own"
      "kept").failOn "create_access_token" "down")
    Within "acme/r" (SparesTokens { variableTemplate with accessToken := some "bot" } ["A"])
      w.backend (sampleReconciler.reconcile tokenTenant w).2.world.backend := by
  intro w
  let declared : Descriptor := { variableTemplate with accessToken := some "bot" }
  have hpath : declared.fullPath = "acme/r" := by decide +kernel
  have hnames : manageable tokenTenant declared = ["A"] := by decide +kernel
  rw [← hpath, ← hnames]
  exact (within_of_reconcile (serves_factory sampleSite) rfl).2 declared rfl

end Reconciler

end ForgeSync
