import ForgeSync.Proofs.Pass.Gate
import ForgeSync.Proofs.Pass.Turns

/-!
# The policy of the first pass

A template that says nothing about deletion gets the policy of its object, and the first pass that
succeeds stores it there. From then on it is the template's own: what a user says of the object
later has no effect on what becomes of the repository.

Main statements: `removal_follows_pinned_policy` and `deleted_against_current_policy`.
-/

namespace ForgeSync

open Calendar (Instant)
open Forge.Memory

namespace Reconciler

/-! ## Runs with requests -/

/-- What a user asks for between passes. -/
inductive Request where
  /-- Another deletion policy for the object, or none of its own. -/
  | policy (policy : Option DeletionPolicy)
  /-- The deletion of the object, at a time. -/
  | deletion (now : Instant)

variable (r : Reconciler State) (o : Owner)

/-- The world after a request. -/
def grant : Request → World State → World State
  | .policy policy => World.amend o.metadata.space o.metadata.name fun spec =>
    { spec with deletionPolicy := policy }
  | .deletion now => fun v => r.after o.metadata.space o.metadata.name v (.deletion now)

/-- The world after a turn, a pass or a request. -/
abbrev requestTurn (v : World State) (turn : Turn Request) : World State :=
  r.afterTurn o.metadata.space o.metadata.name (r.grant o) v turn

/-- The world after a run of such turns. -/
abbrev requestRun (v : World State) (turns : List (Turn Request)) : World State :=
  r.runTurns o.metadata.space o.metadata.name (r.grant o) v turns

/-- The deletion policy that an object says, or else the settings. -/
def policyInForce : DeletionPolicy :=
  o.spec.deletionPolicy.getD r.settings.defaultDeletionPolicy

/-- The policy that was in force when a pass of a run succeeded for the first time. -/
def pinned : World State → List (Turn Request) → Option DeletionPolicy
  | _, [] => none
  | v, turn :: rest =>
    if r.passes o.metadata.space o.metadata.name v turn then
      v.store.objects[o.key]?.map r.policyInForce
    else pinned (r.requestTurn o v turn) rest

variable {r o} {site : Site} {path : String} {pin : Option DeletionPolicy} {v w : World State}
  {stored : Owner} {declared : Descriptor}

/-- Whatever is stored of an object has a template for the repository at a path, with a policy of
its own or none. -/
structure Pins (o : Owner) (path : String) (pin : Option DeletionPolicy) (v : World State) :
    Prop where
  faults : v.faults = {}
  stored : ∀ stored, v.store.objects[o.key]? = some stored → stored.key = o.key ∧
    ∃ declared, stored.spec.gitTemplate = some declared ∧ declared.fullPath = path ∧
      declared.deletionPolicy = pin

theorem Pins.fetched (h : Pins o path pin v) (hstored : v.store.objects[o.key]? = some stored)
    (failures : Table String) : Fetched stored (v.withFailures failures) :=
  ⟨(congrArg (v.store.objects[·]?) (h.stored stored hstored).1).trans hstored, h.faults⟩

theorem Pins.of_stored (h : Pins o path pin v) (hfaults : w.faults = v.faults)
    (hsame : ∀ next, w.store.objects[o.key]? = some next →
      ∃ stored, v.store.objects[o.key]? = some stored ∧ next.key = stored.key ∧
        next.spec.gitTemplate = stored.spec.gitTemplate) : Pins o path pin w := by
  refine ⟨hfaults.trans h.faults, fun next hnext => ?_⟩
  obtain ⟨stored, hstored, hkey, htemplate⟩ := hsame next hnext
  rw [hkey, htemplate]
  exact h.stored stored hstored

theorem Pins.granted (h : Pins o path pin v) (request : Request) :
    Pins o path pin (r.grant o request v) := by
  cases request with
  | policy policy =>
      cases hstored : v.store.objects[o.key]? with
      | none =>
          rw [grant, amend_of_absent hstored]
          exact h
      | some stored =>
          rw [grant, stored_amend hstored (h.stored stored hstored).1]
          refine h.of_stored rfl fun next hnext => ⟨stored, hstored, ?_⟩
          dsimp only at hnext
          split at hnext
          · -- the store drops an object that waits for its removal only
            rw [Std.ExtTreeMap.getElem?_erase_self] at hnext
            cases hnext
          · rw [Std.ExtTreeMap.getElem?_insert_self] at hnext
            obtain rfl := Option.some.inj hnext
            exact ⟨rfl, rfl⟩
  | deletion now =>
      obtain ⟨-, hsame⟩ | ⟨stored, objects, hstored, hafter, hobjects⟩ := after_deletion r o v now
      · dsimp only [grant]
        rw [hsame]
        exact h
      · dsimp only [grant]
        rw [hafter]
        refine h.of_stored rfl fun next hnext => ⟨stored, hstored, ?_⟩
        obtain ⟨-, hnone⟩ | hmarked := hobjects
        · cases hnone.symm.trans hnext
        · obtain rfl := Option.some.inj (hmarked.symm.trans hnext)
          exact ⟨(kin_markDeleted (r := r) now stored).key, by rw [ObjectStore.spec_markDeleted]⟩

theorem Pins.of_failed (h : Pins o path pin v) {turn : Turn Request}
    (hfails : r.passes o.metadata.space o.metadata.name v turn = false) :
    Pins o path pin (r.requestTurn o v turn) := by
  cases turn with
  | act request => exact h.granted request
  | pass now failures =>
      cases hstored : v.store.objects[o.key]? with
      | none =>
          rw [requestTurn, afterTurn, freshPass_of_absent hstored]
          exact h
      | some stored =>
          obtain ⟨failure, hrun⟩ := exists_error_of_not_passes hstored hfails
          obtain ⟨phase, version, hmarked⟩ := stored_of_error (h.fetched hstored failures) hrun
          rw [requestTurn, afterTurn_pass hstored]
          rw [(h.stored stored hstored).1] at hmarked
          refine h.of_stored (along_reconcile _ _ _).faults fun next hnext =>
            ⟨stored, hstored, ?_⟩
          obtain rfl := Option.some.inj (hmarked.symm.trans hnext)
          exact ⟨rfl, rfl⟩

/-- A pass that succeeds gives the template the policy in force, unless it has one. -/
theorem Pins.of_passed (h : Pins o path pin v) {turn : Turn Request}
    (hpasses : r.passes o.metadata.space o.metadata.name v turn = true) :
    ∃ stored, v.store.objects[o.key]? = some stored ∧
      Pins o path (some (pin.getD (r.policyInForce stored))) (r.requestTurn o v turn) := by
  obtain ⟨now, failures, stored, outcome, hstored, hrun, hafter⟩ := exists_pass_of_passes hpasses
  obtain ⟨hkey, declared, htemplate, hpath, hpolicy⟩ := h.stored stored hstored
  have hfetched := h.fetched hstored failures
  rw [requestTurn, hafter]
  refine ⟨stored, hstored, (along_reconcile _ _ _).faults.trans h.faults, fun next hnext => ?_⟩
  rw [← hkey] at hnext
  obtain ⟨hkin, -⟩ := kin_of_stored (r := { r with now }) hfetched hnext
  have hspec := spec_of_ok (r := { r with now }) hfetched htemplate hrun hnext
  have hfilled : next.spec.gitTemplate = some (completedTemplate stored
      r.settings.defaultDeletionPolicy r.settings.defaultCreationPolicy declared) :=
    congrArg (·.gitTemplate) hspec
  exact ⟨hkin.key.trans hkey, _, hfilled, hpath, by rw [← hpolicy]; rfl⟩

/-- Along a run the template has its own policy, or else the one that was in force when a pass
succeeded for the first time. -/
theorem Pins.along (h : Pins o path pin v) (turns : List (Turn Request)) :
    Pins o path (pin.or (r.pinned o v turns)) (r.requestRun o v turns) := by
  induction turns generalizing v pin with
  | nil => simpa [pinned, requestRun, runTurns] using h
  | cons turn rest ih =>
      cases hpasses : r.passes o.metadata.space o.metadata.name v turn with
      | false =>
          rw [pinned, if_neg (by simp [hpasses])]
          exact ih (h.of_failed hpasses)
      | true =>
          obtain ⟨stored, hstored, hnext⟩ := h.of_passed hpasses
          rw [pinned, if_pos hpasses, hstored, Option.map_some]
          have hend := ih hnext
          -- the template has a policy from here on, so later passes pin nothing
          cases pin <;> exact hend

/-! ## Main statement -/

/-- A pass deletes or archives the repository of its template only, and as the template says. -/
theorem removal_of_passCalls {repo : Descriptor} {deleted : Bool} {target : String} :
    (Convergence.passCalls repo deleted (.deleteProject target) →
      target = repo.fullPath ∧ repo.effectiveDeletionPolicy = .delete) ∧
    (Convergence.passCalls repo deleted (.archiveProject target) →
      target = repo.fullPath ∧ repo.effectiveDeletionPolicy = .archive) := by
  cases deleted <;> simp [Convergence.passCalls, Forge.removalCalls, Convergence.livingCalls,
    Forge.commitCalls, Forge.creationCalls, Forge.updateCalls, Forge.variableCalls,
    Forge.tokenCalls]

/-- In a run over an object whose template says nothing about deletion at first, a pass deletes or
archives the repository only if this is the policy that was in force when a pass of the run
succeeded for the first time, or that is in force now if none has. -/
theorem removal_follows_pinned_policy (hserves : r.registry.Serves (forge site))
    (hfetched : Fetched o w) (htemplate : o.spec.gitTemplate = some declared)
    (hopen : declared.deletionPolicy = none) (turns : List (Turn Request))
    (hstored : (r.requestRun o w turns).store.objects[o.key]? = some stored) (now : Instant)
    (failures : Table String) :
    ∃ new, (r.requestTurn o (r.requestRun o w turns) (.pass now failures)).backend.calls =
        (r.requestRun o w turns).backend.calls ++ new ∧
      (∀ path, .deleteProject path ∈ new → path = declared.fullPath ∧
        (r.pinned o w turns).getD (r.policyInForce stored) = .delete) ∧
      ∀ path, .archiveProject path ∈ new → path = declared.fullPath ∧
        (r.pinned o w turns).getD (r.policyInForce stored) = .archive := by
  have hpins : Pins o declared.fullPath none w := by
    refine ⟨hfetched.faults, fun stored hstored => ?_⟩
    obtain rfl := Option.some.inj (hfetched.stored.symm.trans hstored)
    exact ⟨rfl, declared, htemplate, rfl, hopen⟩
  have hend := hpins.along (r := r) turns
  rw [Option.none_or] at hend
  obtain ⟨-, current, hcurrent, hpath, hpolicy⟩ := hend.stored stored hstored
  obtain ⟨new, hnew, hcalls⟩ := moves_reconcile_of_serves (r := { r with now })
    (w := (r.requestRun o w turns).withFailures failures)
    (Logs.chains _) hserves (completed_of_template hcurrent) (respects_logs site _)
  have heffective : (completedTemplate stored r.settings.defaultDeletionPolicy
      r.settings.defaultCreationPolicy current).effectiveDeletionPolicy =
      (r.pinned o w turns).getD (r.policyInForce stored) := by
    rw [← hpolicy]
    rfl
  rw [requestTurn, afterTurn_pass hstored, ← hpath, ← heffective]
  exact ⟨new, hnew, fun path hmem => removal_of_passCalls.1 (hcalls _ hmem),
    fun path hmem => removal_of_passCalls.2 (hcalls _ hmem)⟩

/-! ## A change of mind -/

/-- A run in which a user has second thoughts after the first pass, and asks for the deletion of the
object all the same. -/
def secondThoughts : List (Turn Request) :=
  [.pass ⟨0, 0⟩ ∅, .act (.policy (some .retain)), .act (.deletion ⟨1, 0⟩)]

/-- The world after that run over the tenant. -/
def reprievedWorld : World State :=
  deletingReconciler.requestRun sampleTenant sampleStart secondThoughts

/-- The pass that deletes the repository goes by the policy of the first pass. -/
theorem removal_follows_pinned_policy_sampleTenant :
    ∃ stored, reprievedWorld.store.objects["ns/t"]? = some stored ∧
      (deletingReconciler.pinned sampleTenant sampleStart secondThoughts).getD
        (deletingReconciler.policyInForce stored) = .delete := by
  obtain ⟨stored, hstored⟩ : ∃ stored, reprievedWorld.store.objects["ns/t"]? = some stored :=
    Option.isSome_iff_exists.1 (by decide +kernel)
  obtain ⟨new, hnew, hdeleted, -⟩ := removal_follows_pinned_policy
    (r := deletingReconciler) (serves_factory sampleSite) fetched_sampleTenant rfl rfl
    secondThoughts hstored ⟨2, 0⟩ ∅
  have hcalls : (deletingReconciler.requestTurn sampleTenant reprievedWorld
      (.pass ⟨2, 0⟩ ∅)).backend.calls = reprievedWorld.backend.calls ++
        [.getProject "acme/r", .deleteProject "acme/r"] := by
    decide +kernel
  obtain rfl := List.append_cancel_left (hnew.symm.trans hcalls)
  exact ⟨stored, hstored, (hdeleted "acme/r" (by simp)).2⟩

/-- A removal does not always follow the policy that the object or the settings say at the time: the
user wants the repository retained, and it is deleted. -/
theorem deleted_against_current_policy :
    ¬ ∀ (r : Reconciler State) (o stored : Owner) (w : World State) (declared : Descriptor)
        (turns : List (Turn Request)) (now : Instant) (failures : Table String)
        (new : List Forge.Call),
      r.registry.Serves (forge sampleSite) → Fetched o w → o.spec.gitTemplate = some declared →
      declared.deletionPolicy = none →
      (r.requestRun o w turns).store.objects[o.key]? = some stored → stored.isDeleting = true →
      (r.requestTurn o (r.requestRun o w turns) (.pass now failures)).backend.calls =
        (r.requestRun o w turns).backend.calls ++ new →
      (.deleteProject declared.fullPath ∈ new → r.policyInForce stored = .delete) ∧
        (.archiveProject declared.fullPath ∈ new → r.policyInForce stored = .archive) := by
  intro h
  obtain ⟨stored, hstored⟩ : ∃ stored, reprievedWorld.store.objects["ns/t"]? = some stored :=
    Option.isSome_iff_exists.1 (by decide +kernel)
  have hread : ((reprievedWorld.store.objects["ns/t"]?).map fun stored =>
      (stored.isDeleting, deletingReconciler.policyInForce stored)) = some (true, .retain) := by
    decide +kernel
  rw [hstored, Option.map_some, Option.some.injEq, Prod.mk.injEq] at hread
  have hpolicy := (h deletingReconciler sampleTenant stored sampleStart _ secondThoughts ⟨2, 0⟩ ∅
    [.getProject "acme/r", .deleteProject "acme/r"] (serves_factory sampleSite)
    fetched_sampleTenant rfl rfl hstored hread.1 (by decide +kernel)).1 (by decide)
  exact absurd (hread.2.symm.trans hpolicy) (by decide)

end Reconciler

end ForgeSync
