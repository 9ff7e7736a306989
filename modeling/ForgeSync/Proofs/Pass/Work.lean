import ForgeSync.Proofs.Pass.Stages

/-!
# The work on a repository, action by action

The work on a living repository is made of few kinds of actions: operations of the forge, changes to
the status in hand, writes of the status where a failure is recorded, and the secret that is handed
to the vault. A relation that holds along chains of changes needs to be shown of these only.

Main statements: `Records.moves_prepare`, `moves_settleVariables_of` and `moves_grantToken_of`.
-/

namespace ForgeSync

namespace Pass

variable {σ : Type}

/-- Relations that the recording of a failure respects: the phase in hand is changed, the status is
written, and the version is noted. -/
structure Records (P : Pass σ → Pass σ → Prop) : Prop extends Act.Chains P where
  phase : ∀ phase, Act.Moves P (modifyObject (·.withPhase phase))
  version : ∀ version, Act.Moves P (modifyObject (·.withVersion version))
  write : ∀ p : Pass σ, P p (((World.updateStatus p.object).within onWorld).runFrom p).2

end Pass

namespace Convergence

variable {σ : Type} {P : Pass σ → Pass σ → Prop}

/-! ## Failures that are recorded -/

theorem runFrom_failWith {α : Type} (cause : Failure) (p : Pass σ) :
    (failWith cause : Act (Pass σ) α).runFrom p =
      match ((World.updateStatus (p.object.withPhase .failed)).within Pass.onWorld).runFrom
        { p with object := p.object.withPhase .failed } with
      | (.ok stored, after) =>
        (.error cause,
          { after with object := after.object.withVersion stored.metadata.resourceVersion })
      | (.error persist, after) => (.error (.statusPersist cause persist), after) := by
  simp only [failWith, Pass.modifyObject, Act.runFrom_bind, Act.runFrom_modify, Act.runFrom_get,
    Act.runFrom_attempt]
  rcases ((World.updateStatus (p.object.withPhase .failed)).within Pass.onWorld).runFrom
    { p with object := p.object.withPhase .failed } with ⟨_ | _, after⟩ <;> rfl

end Convergence

namespace Pass.Records

open Convergence

variable {σ α : Type} {P : Pass σ → Pass σ → Prop} (h : Pass.Records P)

include h

theorem moves_failWith (cause : Failure) : Act.Moves P (failWith cause : Act (Pass σ) α) := by
  intro p
  have hwrite := h.trans (h.phase .failed p)
    (h.write { p with object := p.object.withPhase .failed })
  rw [runFrom_failWith]
  rcases hrun : ((World.updateStatus (p.object.withPhase .failed)).within Pass.onWorld).runFrom
    { p with object := p.object.withPhase .failed } with ⟨persist | stored, after⟩ <;>
    rw [hrun] at hwrite
  · exact hwrite
  · exact h.trans hwrite (h.version _ after)

theorem moves_recording {act : Act (Pass σ) α} (hact : Act.Moves P act) :
    Act.Moves P (recording act) := by
  apply h.moves_bind (Act.moves_attempt.2 hact)
  intro outcome
  cases outcome with
  | ok a => exact h.moves_pure a
  | error cause => exact h.moves_failWith cause

theorem moves_createMissing {forge : Forge σ} {repo : Descriptor}
    (hcreate : Act.Moves P ((forge.createRepository repo).within Pass.onBackend)) :
    Act.Moves P (createMissing forge repo) := by
  have hrecorded := h.moves_bind (h.phase .creating) fun _ => h.moves_recording hcreate
  unfold createMissing
  dsimp only
  split
  · exact h.moves_bind (h.moves_throw _) fun _ => hrecorded
  · exact hrecorded

end Pass.Records

namespace Convergence

variable {σ : Type} {P : Pass σ → Pass σ → Prop} {c : Convergence σ} {forge : Forge σ}
  {repo : Descriptor}

/-! ## Up to the end of the work -/

/-- The work up to its end: the repository is there by then, with the template files, and what was
there before is brought in line. -/
def prepare (forge : Forge σ) (repo : Descriptor) (existed : Bool) : Act (Pass σ) Unit := do
  if !existed then createMissing forge repo
  recording ((forge.commitTemplate repo).within Pass.onBackend)
  if existed then
    let _ ← (forge.updateRepository repo).within Pass.onBackend

theorem prepare_of_existed (forge : Forge σ) (repo : Descriptor) :
    prepare forge repo true =
      recording ((forge.commitTemplate repo).within Pass.onBackend) >>= fun _ =>
        (forge.updateRepository repo).within Pass.onBackend >>= fun _ => pure () :=
  rfl

theorem prepare_of_missing (forge : Forge σ) (repo : Descriptor) :
    prepare forge repo false =
      createMissing forge repo >>= fun _ =>
        recording ((forge.commitTemplate repo).within Pass.onBackend) >>= fun _ => pure () :=
  rfl

theorem createMissing_of_allowed (forge : Forge σ) (h : repo.effectiveCreationPolicy ≠ .adopt) :
    createMissing forge repo =
      Pass.modifyObject (·.withPhase .creating) >>= fun _ =>
        recording ((forge.createRepository repo).within Pass.onBackend) :=
  if_neg h

theorem convergeRepository_eq_prepare (c : Convergence σ) (connection : Connection)
    (forge : Forge σ) (repo : Descriptor) (existed : Bool) :
    c.convergeRepository connection forge repo existed =
      prepare forge repo existed >>= fun _ => c.finish connection forge repo := by
  cases existed <;> simp [convergeRepository, prepare, finish, bind_assoc]

end Convergence

theorem Pass.Records.moves_prepare {σ : Type} {P : Pass σ → Pass σ → Prop} {forge : Forge σ}
    {repo : Descriptor} (h : Pass.Records P)
    (hcreate : Act.Moves P ((forge.createRepository repo).within Pass.onBackend))
    (hcommit : Act.Moves P ((forge.commitTemplate repo).within Pass.onBackend))
    (hupdate : Act.Moves P ((forge.updateRepository repo).within Pass.onBackend))
    (existed : Bool) : Act.Moves P (Convergence.prepare forge repo existed) := by
  have hrecorded := h.moves_recording hcommit
  cases existed with
  | true =>
      rw [Convergence.prepare_of_existed]
      exact h.moves_bind hrecorded fun _ => h.moves_bind hupdate fun _ => h.moves_pure _
  | false =>
      rw [Convergence.prepare_of_missing]
      exact h.moves_bind (h.moves_createMissing hcreate) fun _ =>
        h.moves_bind hrecorded fun _ => h.moves_pure _

namespace Convergence

variable {σ : Type} {P : Pass σ → Pass σ → Prop} {c : Convergence σ} {forge : Forge σ}
  {repo : Descriptor}

/-! ## The end of the work -/

theorem moves_settleVariables_of (hP : Act.Chains P)
    (hforge : ∀ p : Pass σ, P p (((forge.reconcileVariables repo.fullPath
      (managedNames p.object.status.lastAppliedCiVariables (.ofDesired repo.ciVariables))
      repo.ciVariables).within Pass.onBackend).runFrom p).2)
    (hstatus : Act.Moves P (Pass.modifyObject (·.mapStatus fun s =>
      { s with lastAppliedCiVariables :=
          if (AppliedVariables.ofDesired repo.ciVariables).names.isEmpty then none
          else some (.ofDesired repo.ciVariables) }))) :
    Act.Moves P (settleVariables forge repo) := by
  unfold settleVariables
  refine Act.moves_get_bind.2 fun p => ?_
  dsimp only
  split
  · exact hP.refl p
  · split
    · exact hP.runFrom_bind (hforge p) fun _ => hstatus
    · exact hstatus p

theorem moves_grantToken_of (hP : Act.Chains P)
    (hforge : ∀ (p : Pass σ) name, repo.accessToken = some name →
      P p (((forge.ensureAccessToken c.now repo.fullPath name
        p.object.status.accessTokenUid).within Pass.onBackend).runFrom p).2)
    (hvault : ∀ grant token, Act.Moves P
      ((World.storeToken repo.fullPath grant token).within (Pass.onWorld (σ := σ))))
    (hstatus : ∀ uid, Act.Moves P (Pass.modifyObject (·.mapStatus fun s =>
      { s with accessTokenUid := some uid }))) :
    Act.Moves P (c.grantToken forge repo) := by
  unfold grantToken
  cases hwanted : repo.accessToken with
  | none => exact hP.moves_pure _
  | some name =>
      refine Act.moves_get_bind.2 fun p => ?_
      refine hP.runFrom_bind (hforge p name hwanted) fun grant => ?_
      dsimp only
      cases grant.token with
      | none => exact hstatus grant.uid
      | some token => exact hP.moves_bind (hvault grant token) fun _ => hstatus grant.uid

end Convergence

end ForgeSync
