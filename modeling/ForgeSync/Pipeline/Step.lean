import ForgeSync.World

/-!
# Passes in steps

A pass takes one object through a list of steps. The steps change the object and the world; what
they changed stays, also when a later step fails. The first failure ends the pass, and so does a
step that says that nothing is left to do.

Main statements: `runSteps_of_stop` says how a step ends a pass, and `runSteps_of_proceed` how the
pass goes on after it.
-/

namespace ForgeSync

/-- What follows a step. -/
inductive Flow where
  | proceed
  /-- The pass ends without failure; it may ask for another pass soon. -/
  | stop (requeue : Bool)
  deriving DecidableEq, Repr, Inhabited

/-- What stays the same during a pass. -/
structure Rules where
  /-- The object as it was before the first step. -/
  initial : Owner
  /-- The finalizer in use, if one is. -/
  finalizer : Option String
  /-- Takes the place of what the object says about its protection. -/
  protection : Option Bool
  deriving DecidableEq, Inhabited

/-- What the steps of a pass work on. -/
structure Pass (σ : Type) where
  object : Owner
  /-- Whether deletion of the object is in flight. -/
  deleted : Bool := false
  world : World σ

namespace Pass

variable {σ : Type}

/-- The world as a part of the pass. -/
def onWorld : Focus (Pass σ) (World σ) :=
  ⟨(·.world), fun world p => { p with world }⟩

/-- The state behind the forges as a part of the pass. -/
def onBackend : Focus (Pass σ) σ :=
  ⟨(·.world.backend), fun backend p => { p with world := { p.world with backend } }⟩

/-- Changes the object of the pass. -/
def modifyObject (f : Owner → Owner) : Act (Pass σ) Unit :=
  modify fun p => { p with object := f p.object }

end Pass

structure Step (σ : Type) where
  name : String
  run : Rules → Act (Pass σ) Flow

/-- The result of a pass that did not fail. -/
structure Outcome where
  /-- Whether another pass shall follow soon. -/
  requeue : Bool := false
  deriving DecidableEq, Repr, Inhabited

/-- The failure of one step, which ended a pass. -/
structure StepFailure where
  step : String
  cause : Failure
  deriving DecidableEq, Repr, Inhabited

def StepFailure.message (f : StepFailure) : String :=
  "step " ++ f.step ++ " failed: " ++ f.cause.message

/-- The failure with the step that it ended. -/
def StepFailure.encode (f : StepFailure) : Datum :=
  .map [("error", .text "Step"), ("step", .text f.step), ("message", .text f.message),
    ("source", f.cause.encode)]

section Running

variable {σ : Type}

/-- Runs steps in order. -/
def runSteps (rules : Rules) : List (Step σ) → Pass σ → Except StepFailure Outcome × Pass σ
  | [], pass => (.ok {}, pass)
  | step :: rest, pass =>
    match (step.run rules).runFrom pass with
    | (.error cause, pass) => (.error ⟨step.name, cause⟩, pass)
    | (.ok (.stop requeue), pass) => (.ok { requeue }, pass)
    | (.ok .proceed, pass) => runSteps rules rest pass

theorem runSteps_of_stop {rules : Rules} {step : Step σ} {pass after : Pass σ} {requeue : Bool}
    (h : (step.run rules).runFrom pass = (.ok (.stop requeue), after)) (rest : List (Step σ)) :
    runSteps rules (step :: rest) pass = (.ok { requeue }, after) := by
  simp [runSteps, h]

theorem runSteps_of_proceed {rules : Rules} {step : Step σ} {pass after : Pass σ}
    (h : (step.run rules).runFrom pass = (.ok .proceed, after)) (rest : List (Step σ)) :
    runSteps rules (step :: rest) pass = runSteps rules rest after := by
  simp [runSteps, h]

end Running

/-- A step that leaves a mark of its own on the object and in a list of names, and then ends as it
is told to. With such steps one sees what a pipeline does. -/
def Step.marker (name : String) (mark : Owner → Owner) (deleted : Option Bool)
    (result : Except Failure Flow) : Step (List String) where
  name
  run _ := do
    modify fun pass => { pass with
      object := mark pass.object
      deleted := deleted.getD pass.deleted
      world := { pass.world with backend := pass.world.backend ++ [name] } }
    Act.ofExcept result

end ForgeSync
