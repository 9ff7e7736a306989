import ForgeSync.Proofs.Forge.Footprint
import ForgeSync.Proofs.Pass.Work

/-!
# What a pass can move

A relation between states behind a forge that holds along chains of changes, and that the calls of
a pass respect, holds between the states before and after a whole pass: whatever fails, and
wherever the pass ends.

Main statement: `moves_reconcile`.
-/

namespace ForgeSync

namespace Pass

variable {σ : Type}

/-- The backends are related, and what no work on a repository touches stays. -/
structure Along (R : σ → σ → Prop) (before after : Pass σ) : Prop where
  backend : R before.world.backend after.world.backend
  deleted : after.deleted = before.deleted
  secrets : after.world.secrets = before.world.secrets
  faults : after.world.faults = before.world.faults

variable {R : σ → σ → Prop}

theorem Along.chains (hR : Act.Chains R) : Act.Chains (Along R) where
  refl _ := ⟨hR.refl _, rfl, rfl, rfl⟩
  trans h h' := ⟨hR.trans h.backend h'.backend, h'.deleted.trans h.deleted,
    h'.secrets.trans h.secrets, h'.faults.trans h.faults⟩

theorem moves_onBackend {α : Type} {act : Act σ α} (h : Act.Moves R act) :
    Act.Moves (Along R) (act.within onBackend) :=
  fun p => ⟨h p.world.backend, rfl, rfl, rfl⟩

theorem moves_modifyObject (hR : Act.Chains R) (f : Owner → Owner) :
    Act.Moves (Along R) (modifyObject f) :=
  fun p => ⟨hR.refl p.world.backend, rfl, rfl, rfl⟩

theorem moves_guarded {α : Type} (hR : Act.Chains R) {fault : Faults → Option Failure}
    {body : World σ → Except Failure α × World σ}
    (hbackend : ∀ w, (body w).2.backend = w.backend)
    (hsecrets : ∀ w, (body w).2.secrets = w.secrets)
    (hfaults : ∀ w, (body w).2.faults = w.faults) :
    Act.Moves (Along R) ((World.guarded fault body).within onWorld) := by
  intro p
  rw [Act.runFrom_within, World.guarded, Act.runFrom_ofFunction]
  dsimp only
  split
  · exact ⟨hR.refl _, rfl, rfl, rfl⟩
  · exact ⟨(hbackend p.world).symm ▸ hR.refl p.world.backend, rfl, hsecrets p.world,
      hfaults p.world⟩

theorem moves_updateObject (hR : Act.Chains R) (o : Owner) :
    Act.Moves (Along R) ((World.updateObject o).within (onWorld (σ := σ))) :=
  moves_guarded hR (fun _ => rfl) (fun _ => rfl) fun _ => rfl

theorem moves_updateStatus (hR : Act.Chains R) (o : Owner) :
    Act.Moves (Along R) ((World.updateStatus o).within (onWorld (σ := σ))) :=
  moves_guarded hR (fun _ => rfl) (fun _ => rfl) fun _ => rfl

theorem Along.records (hR : Act.Chains R) : Records (Along R) where
  toChains := Along.chains hR
  phase _ := moves_modifyObject hR _
  version _ := moves_modifyObject hR _
  write p := moves_updateStatus hR p.object p

theorem moves_storeToken (hR : Act.Chains R) (path : String) (grant : AccessTokenGrant)
    (token : String) :
    Act.Moves (Along R) ((World.storeToken path grant token).within (onWorld (σ := σ))) :=
  moves_guarded hR (fun _ => rfl) (fun _ => rfl) fun _ => rfl

end Pass

namespace Convergence

variable {σ : Type}

/-! ## The work on a living repository -/

/-- The calls that the work on a living repository can make. -/
def livingCalls (repo : Descriptor) (call : Forge.Call) : Prop :=
  Forge.commitCalls repo call ∨ Forge.creationCalls repo call ∨ Forge.updateCalls repo call ∨
    (∃ managed, Forge.variableCalls repo.fullPath managed repo.ciVariables call) ∨
    ∃ request, Forge.tokenCalls repo.fullPath request call

section Moving

variable {R : σ → σ → Prop} (hR : Act.Chains R)

include hR

theorem moves_recording {α : Type} {act : Act (Pass σ) α} (h : Act.Moves (Pass.Along R) act) :
    Act.Moves (Pass.Along R) (recording act) :=
  (Pass.Along.records hR).moves_recording h

theorem moves_settleVariables {forge : Forge σ} {repo : Descriptor}
    (h : ∀ managed, forge.Respects
      (Forge.variableCalls repo.fullPath managed repo.ciVariables) R) :
    Act.Moves (Pass.Along R) (settleVariables forge repo) :=
  moves_settleVariables_of (Pass.Along.chains hR)
    (Pass.moves_onBackend (Forge.moves_reconcileVariables hR (h _)) ·)
    (Pass.moves_modifyObject hR _)

theorem moves_grantToken {forge : Forge σ} {repo : Descriptor} (c : Convergence σ)
    (h : ∀ request, forge.Respects (Forge.tokenCalls repo.fullPath request) R) :
    Act.Moves (Pass.Along R) (c.grantToken forge repo) :=
  moves_grantToken_of (Pass.Along.chains hR)
    (fun p _ _ => Pass.moves_onBackend (Forge.moves_ensureAccessToken hR (h _)) p)
    (Pass.moves_storeToken hR _) fun _ => Pass.moves_modifyObject hR _

theorem moves_finish {forge : Forge σ} {repo : Descriptor} (c : Convergence σ)
    (connection : Connection) (h : forge.Respects (livingCalls repo) R) :
    Act.Moves (Pass.Along R) (c.finish connection forge repo) := by
  have hP := Pass.Along.chains hR
  refine hP.moves_bind (moves_settleVariables hR fun managed =>
    h.mono fun call hcall => .inr (.inr (.inr (.inl ⟨managed, hcall⟩)))) fun _ => ?_
  refine hP.moves_bind (moves_grantToken hR c fun request =>
    h.mono fun call hcall => .inr (.inr (.inr (.inr ⟨request, hcall⟩)))) fun _ => ?_
  exact Pass.moves_modifyObject hR _

theorem moves_fill {forge : Forge σ} {repo : Descriptor} (c : Convergence σ)
    (connection : Connection) (existed : Bool) (h : forge.Respects (livingCalls repo) R) :
    Act.Moves (Pass.Along R) (c.fill connection forge repo existed) := by
  have hP := Pass.Along.chains hR
  refine hP.moves_bind (moves_recording hR (Pass.moves_onBackend
    (Forge.moves_commitTemplate hR (h.mono fun call => .inl)))) fun _ => ?_
  dsimp only
  split
  · exact hP.moves_bind (Pass.moves_onBackend (Forge.moves_updateRepository hR
      (h.mono fun call hcall => .inr (.inr (.inl hcall)))))
      fun _ => moves_finish hR c connection h
  · exact moves_finish hR c connection h

theorem moves_createMissing {forge : Forge σ} {repo : Descriptor}
    (h : forge.Respects (livingCalls repo) R) :
    Act.Moves (Pass.Along R) (createMissing forge repo) :=
  (Pass.Along.records hR).moves_createMissing (Pass.moves_onBackend
    (Forge.moves_createRepository hR (h.mono fun _ hcall => .inr (.inl hcall))))

theorem moves_convergeRepository {forge : Forge σ} {repo : Descriptor} (c : Convergence σ)
    (connection : Connection) (existed : Bool) (h : forge.Respects (livingCalls repo) R) :
    Act.Moves (Pass.Along R) (c.convergeRepository connection forge repo existed) := by
  rw [convergeRepository_eq]
  split
  · exact moves_fill hR c connection existed h
  · exact (Pass.Along.chains hR).moves_bind (moves_createMissing hR h)
      fun _ => moves_fill hR c connection existed h

end Moving

end Convergence

/-! ## The whole pass -/

namespace Convergence

variable {σ : Type} {R : σ → σ → Prop}

theorem moves_retire (hR : Act.Chains R) {forge : Forge σ} {repo : Descriptor}
    (hget : forge.Respects (· = .getProject repo.fullPath) R)
    (h : forge.Respects (Forge.removalCalls repo) R) : Act.Moves R (retire forge repo) := by
  apply hR.moves_bind (Act.moves_map.1 (hget _ rfl))
  intro remote
  split
  · exact Forge.moves_removeRepository hR h
  · exact hR.moves_pure _

/-- The calls of a pass that has reached the forge. -/
def passCalls (repo : Descriptor) (deleted : Bool) (call : Forge.Call) : Prop :=
  call = .getProject repo.fullPath ∨
    if deleted then Forge.removalCalls repo call else livingCalls repo call

theorem moves_convergeOn (hR : Act.Chains R) {c : Convergence σ} {p : Pass σ} {repo : Descriptor}
    {connection : Connection} {forge : Forge σ}
    (h : forge.Respects (passCalls repo p.deleted) R) :
    Pass.Along R p ((c.convergeOn connection forge repo).runFrom p).2 := by
  have hget : forge.Respects (· = .getProject repo.fullPath) R :=
    h.mono fun call hcall => .inl hcall
  cases hdeleted : p.deleted with
  | true =>
      rw [convergeOn_of_deleted hdeleted]
      exact Pass.moves_onBackend
        (moves_retire hR hget (h.mono fun call hcall => .inr (by simpa [hdeleted] using hcall))) p
  | false =>
      rw [convergeOn_of_living hdeleted]
      have hread := Pass.moves_onBackend (Act.moves_map.1 (hget (.getProject repo.fullPath) rfl)) p
      have hwork := fun existed => moves_convergeRepository hR c connection existed
        (h.mono fun call hcall => .inr (by simpa [hdeleted] using hcall))
      unfold Forge.readRepository
      generalize ((forge.getProject repo.fullPath).within Pass.onBackend).runFrom p = run at hread ⊢
      rcases run with ⟨failure | remote, after⟩
      · exact hread
      · exact (Pass.Along.chains hR).trans hread (hwork _ after)

end Convergence

namespace Lifecycle

variable {σ : Type} {R : σ → σ → Prop}

theorem moves_updateObject (hR : Act.Chains R) (rules : Rules) :
    Act.Moves (Pass.Along R) ((updateObject (σ := σ)).run rules) := by
  have hP := Pass.Along.chains hR
  have hnote : ∀ stored, Act.Moves (Pass.Along R) (noteVersion (σ := σ) stored) :=
    fun stored => Pass.moves_modifyObject hR _
  have hobject : Act.Moves (Pass.Along R) (storeObject (σ := σ) rules) := by
    apply hP.moves_bind hP.moves_get
    intro q
    dsimp only
    split
    · exact hP.moves_bind (Pass.moves_updateObject hR _) hnote
    · exact hP.moves_pure _
  have hstatus : Act.Moves (Pass.Along R) (storeStatus (σ := σ) rules) := by
    apply hP.moves_bind hP.moves_get
    intro q
    split
    · apply hP.moves_bind (Act.moves_attempt.2 (Pass.moves_updateStatus hR _))
      intro written
      cases written with
      | ok stored => exact hnote stored
      | error failure =>
          dsimp only
          split
          · exact hP.moves_pure _
          · exact hP.moves_throw _
    · exact hP.moves_pure _
  refine hP.moves_bind (Act.moves_attempt.2 (hP.moves_bind hobject fun _ => hstatus))
    fun outcome => ?_
  cases outcome with
  | ok _ => exact hP.moves_pure _
  | error failure =>
      dsimp only
      split
      · exact hP.moves_pure _
      · exact hP.moves_throw _

theorem along_closing (hR : Act.Chains R) (rules : Rules) (p : Pass σ) :
    Pass.Along R p (runSteps rules [updateObject] p).2 := by
  have hclose := moves_updateObject hR rules p
  dsimp only [runSteps]
  rcases hend : (updateObject.run rules).runFrom p with ⟨_ | _ | _, final⟩ <;>
    rwa [hend] at hclose

end Lifecycle

namespace Reconciler

variable {σ : Type} {R : σ → σ → Prop}

/-- A pass relates the backends before and after it as the calls that it can make do. -/
theorem moves_reconcile (hR : Act.Chains R) (r : Reconciler σ) (o : Owner) (w : World σ)
    (h : (o.isDeleting = true → Lifecycle.isAllowed (r.rules o) o = true) →
      ∀ repo connection forge, r.convergence.Access (r.admitted o) w repo connection forge →
        forge.Respects (Convergence.passCalls repo o.isDeleting) R) :
    Pass.Along R (r.opening o w) (r.reconcile o w).2 := by
  have hP := Pass.Along.chains hR
  by_cases hadmitted : o.isDeleting = true → Lifecycle.isAllowed (r.rules o) o = true
  · have hwork : Pass.Along R (r.opening o w)
        (r.convergence.converge.runFrom (r.opening o w)).2 := by
      by_cases haccess : ∃ repo connection forge,
          r.convergence.Access (r.admitted o) w repo connection forge
      · obtain ⟨repo, connection, forge, haccess⟩ := haccess
        rw [Convergence.converge_of_access (p := r.opening o w) haccess]
        have hmoved : Pass.Along R (Convergence.templated (r.opening o w) repo)
            ((r.convergence.convergeOn connection forge repo).runFrom
              (Convergence.templated (r.opening o w) repo)).2 :=
          Convergence.moves_convergeOn hR (h hadmitted repo connection forge haccess)
        exact ⟨hmoved.backend, hmoved.deleted, hmoved.secrets, hmoved.faults⟩
      · have hstrayed := Convergence.strayed_of_no_access (c := r.convergence)
          (p := r.opening o w)
          fun repo connection forge hreached => haccess ⟨repo, connection, forge, hreached⟩
        exact ⟨hstrayed.world ▸ hR.refl _, hstrayed.deleted, by rw [hstrayed.world],
          by rw [hstrayed.world]⟩
    rw [reconcile_of_admitted r o w hadmitted]
    rcases hrun : r.convergence.converge.runFrom (r.opening o w) with ⟨cause | _, after⟩
    · simpa [hrun] using hwork
    · rw [hrun] at hwork
      have hfinal : Pass.Along R after (r.finalized o after) := by
        constructor <;> simp only [finalized_world, finalized_deleted]
        exact hR.refl _
      exact hP.trans (hP.trans hwork hfinal)
        (Lifecycle.along_closing hR (r.rules o) (r.finalized o after))
  · obtain ⟨hdeleting, hrefused⟩ := Classical.not_imp.1 hadmitted
    rw [reconcile_of_refused r o w hdeleting (Bool.eq_false_iff.2 hrefused)]
    exact ⟨hR.refl _, hdeleting.symm, rfl, rfl⟩

/-- What an admitted pass does to the backend, its work does. -/
theorem backend_of_admitted (r : Reconciler σ) (o : Owner) (w : World σ)
    (hadmitted : o.isDeleting = true → Lifecycle.isAllowed (r.rules o) o = true) :
    (r.reconcile o w).2.world.backend =
      (r.convergence.converge.runFrom (r.opening o w)).2.world.backend := by
  rw [reconcile_of_admitted r o w hadmitted]
  rcases r.convergence.converge.runFrom (r.opening o w) with ⟨failure | _, p⟩
  · rfl
  · have halong := Lifecycle.along_closing (R := fun a b => b = a)
      ⟨fun _ => rfl, fun h h' => h'.trans h⟩ (r.rules o) (r.finalized o p)
    dsimp only
    rw [halong.backend, finalized_world]

end Reconciler

end ForgeSync
