import ForgeSync.Proofs.Pass.Effect
import ForgeSync.Proofs.Pass.Orphans

/-!
# Runs with changes from outside

Between the passes over an object somebody may act on it: a user changes its spec, or asks for its
deletion. A run takes turns between passes and such acts, whatever they are.

Main statements: `runTurns_invariant` and `stored_amend`.
-/

namespace ForgeSync

open Calendar (Instant)
open Forge.Memory

/-- A turn in a run over an object. -/
inductive Turn (ε : Type) where
  /-- A pass at a time, under failures of the forge. -/
  | pass (now : Instant) (failures : Table String)
  /-- An act from outside. -/
  | act (e : ε)

/-- The world after a user has changed the spec of the object under a name, on a fresh copy. -/
def World.amend (space name : String) (change : OwnerSpec → OwnerSpec) (w : World State) :
    World State :=
  match w.store.get? space name with
  | none => w
  | some o => { w with store := (w.store.update { o with spec := change o.spec }).2 }

namespace Reconciler

variable {ε : Type} (r : Reconciler State) (space name : String)
  (perform : ε → World State → World State)

/-- The world after a turn. -/
def afterTurn (w : World State) : Turn ε → World State
  | .pass now failures => (freshPass { r with now } space name failures w).2
  | .act e => perform e w

/-- The world after a run of turns. -/
def runTurns (w : World State) (turns : List (Turn ε)) : World State :=
  turns.foldl (r.afterTurn space name perform) w

/-- Whether a turn is a pass that does not fail. -/
def passes (w : World State) : Turn ε → Bool
  | .pass now failures =>
    ((freshPass { r with now } space name failures w).1).any fun result => result.toBool
  | .act _ => false

/-- A condition on worlds that holds after every turn of a run. -/
def Throughout (P : World State → Prop) : World State → List (Turn ε) → Prop
  | _, [] => True
  | w, turn :: rest =>
    P (r.afterTurn space name perform w turn) ∧
      Throughout P (r.afterTurn space name perform w turn) rest

variable {r space name perform}

theorem runTurns_append (w : World State) (first rest : List (Turn ε)) :
    r.runTurns space name perform w (first ++ rest) =
      r.runTurns space name perform (r.runTurns space name perform w first) rest :=
  List.foldl_append

/-- What every turn keeps, a run keeps. -/
theorem runTurns_invariant {P : World State → Prop}
    (hstep : ∀ v turn, P v → P (r.afterTurn space name perform v turn)) {w : World State}
    (h : P w) (turns : List (Turn ε)) : P (r.runTurns space name perform w turns) := by
  induction turns generalizing w with
  | nil => exact h
  | cons turn rest ih => exact ih (hstep w turn h)

theorem Throughout.runTurns {P : World State → Prop} {turns : List (Turn ε)} {w : World State}
    (h : r.Throughout space name perform P w turns) (hstart : P w) :
    P (r.runTurns space name perform w turns) := by
  induction turns generalizing w with
  | nil => exact hstart
  | cons turn rest ih => exact ih h.2 h.1

variable {o stored : Owner} {v : World State}

theorem afterTurn_pass (hstored : v.store.objects[o.key]? = some stored) (now : Instant)
    (failures : Table String) :
    r.afterTurn o.metadata.space o.metadata.name perform v (.pass now failures) =
      (({ r with now } : Reconciler State).reconcile stored (v.withFailures failures)).2.world := by
  rw [afterTurn, freshPass_of_stored hstored]

theorem passes_pass (hstored : v.store.objects[o.key]? = some stored) (now : Instant)
    (failures : Table String) :
    r.passes o.metadata.space o.metadata.name v (.pass now failures : Turn ε) =
      (({ r with now } : Reconciler State).reconcile stored
        (v.withFailures failures)).1.toBool := by
  rw [passes, freshPass_of_stored hstored]
  rfl

/-- A turn that succeeds is a pass over what is stored of the object. -/
theorem exists_pass_of_passes {turn : Turn ε}
    (h : r.passes o.metadata.space o.metadata.name v turn = true) :
    ∃ now failures stored outcome, v.store.objects[o.key]? = some stored ∧
      (({ r with now } : Reconciler State).reconcile stored (v.withFailures failures)).1 =
        .ok outcome ∧
      r.afterTurn o.metadata.space o.metadata.name perform v turn =
        (({ r with now } : Reconciler State).reconcile stored
          (v.withFailures failures)).2.world := by
  cases turn with
  | act e => cases h
  | pass now failures =>
      cases hstored : v.store.objects[o.key]? with
      | none =>
          rw [passes, freshPass_of_absent hstored] at h
          cases h
      | some stored =>
          rw [passes_pass hstored] at h
          rcases hrun : (({ r with now } : Reconciler State).reconcile stored
            (v.withFailures failures)).1 with failure | outcome
          · rw [hrun] at h
            cases h
          · exact ⟨now, failures, stored, outcome, rfl, hrun, afterTurn_pass hstored now failures⟩

/-- A pass over a stored object that does not succeed ends in a failure. -/
theorem exists_error_of_not_passes (hstored : v.store.objects[o.key]? = some stored)
    {now : Instant} {failures : Table String}
    (h : r.passes o.metadata.space o.metadata.name v (.pass now failures : Turn ε) = false) :
    ∃ failure, (({ r with now } : Reconciler State).reconcile stored
      (v.withFailures failures)).1 = .error failure := by
  rw [passes_pass hstored] at h
  rcases hrun : (({ r with now } : Reconciler State).reconcile stored
    (v.withFailures failures)).1 with failure | outcome
  · exact ⟨failure, rfl⟩
  · rw [hrun] at h
    cases h

end Reconciler

/-! ## Changes by users -/

variable {o stored : Owner} {v : World State}

/-- A user's change on a fresh copy is stored as the next version. -/
theorem stored_amend (hstored : v.store.objects[o.key]? = some stored) (hkey : stored.key = o.key)
    (change : OwnerSpec → OwnerSpec) :
    v.amend o.metadata.space o.metadata.name change =
      { v with store :=
        { objects :=
            if ObjectStore.isReleased stored.metadata then v.store.objects.erase o.key
            else v.store.objects.insert o.key
              (({ stored with spec := change stored.spec } : Owner).withVersion
                (stored.metadata.resourceVersion + 1))
          writes := v.store.writes + 1 } } := by
  have hsame : ({ stored with spec := change stored.spec } : Owner).key = o.key := hkey
  have hcurrent : v.store.current { stored with spec := change stored.spec } = .ok stored :=
    ObjectStore.current_of_version (by rw [hsame, hstored]) rfl
  rw [World.amend, show v.store.get? o.metadata.space o.metadata.name = some stored from hstored]
  simp only [ObjectStore.update, hcurrent, hsame]
  rfl

/-- Where there is no such object nothing is changed. -/
theorem amend_of_absent (hstored : v.store.objects[o.key]? = none)
    (change : OwnerSpec → OwnerSpec) : v.amend o.metadata.space o.metadata.name change = v := by
  rw [World.amend, show v.store.get? o.metadata.space o.metadata.name = none from hstored]

end ForgeSync
