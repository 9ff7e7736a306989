import ForgeSync.CommandLine.Grammar
import ForgeSync.CommandLine.PassFiles
import ForgeSync.CommandLine.Report
import ForgeSync.GitLab.Forge
import ForgeSync.Json.Printer
import ForgeSync.Pipeline.Reconciler
import ForgeSync.Settings.Layers

/-!
# Sessions

From the arguments of a process to what it writes and to its exit code. The settings are loaded
before anything else is done. A pass then works on an object that nobody else sees: it is stored,
brought towards what it declares, and left in a file if one was named.

Main statement: `execute_checkConfig` says that checking the settings touches no file and no forge.
-/

namespace ForgeSync.CommandLine

open Calendar (Instant)

/-- Why a task failed. -/
inductive TaskFailure where
  | settings (fault : Settings.LoadFault)
  | file (fault : FileFault)
  | pass (kind : OwnerKind) (key : String) (failure : StepFailure)
  deriving DecidableEq, Inhabited

namespace TaskFailure

def message : TaskFailure → String
  | settings fault => fault.message
  | file fault => fault.message
  | pass kind key _ => "Reconcile of " ++ kind.name ++ " " ++ key ++ " failed"

/-- What lies behind the failure, the nearest cause first. -/
def causes : TaskFailure → List String
  | settings _ => []
  | file fault => fault.causes
  | pass _ _ failure => [failure.message, failure.cause.message]

/-- The failure as lines for people. -/
def lines (f : TaskFailure) : List String :=
  ("Error: " ++ f.message) :: f.causes.map ("  caused by: " ++ ·)

/-- The failure as data; the members are in the order of their names. -/
def encode (f : TaskFailure) : Datum :=
  .map [("causes", Datum.ofTexts f.causes), ("error", .text f.message), ("success", .bool false)]

end TaskFailure

/-- What a task that succeeded tells. -/
inductive Report where
  | settings (settings : Settings)
  | pass (report : PassReport)
  deriving DecidableEq, Inhabited

/-- A report as it is written, with the line break behind it. -/
def Report.text (json : Bool) (r : Report) : String :=
  let (lines, data) := match r with
    | settings s => (settingsLines s, settingsData s)
    | pass p => (p.lines, p.encode)
  (if json then Json.pretty data else joinLines lines) ++ "\n"

/-- What a session stands on: the way to the servers with its state, and the time. -/
structure Surroundings (τ : Type) where
  transport : Http.Transport τ
  wire : τ
  now : Instant

section Tasks

variable {τ : Type}

/-- The result of a task, and the files and the state of the wire after it. -/
structure TaskResult (τ : Type) where
  result : Except TaskFailure Report
  tree : FileTree
  wire : τ

/-- The report of a pass about the object that it left. -/
def reportOf (outcome : Outcome) (o : Owner) (vault : TokenVault) : PassReport where
  kind := o.kind.name
  object := o.key
  requeue := outcome.requeue
  phase := o.status.phase.name
  url := o.status.url
  accessTokenUid := o.status.accessTokenUid
  tokenMinted := !vault.isEmpty

/-- Leaves an object in a file, if one is named. -/
def leaveObject (tree : FileTree) (output : Option String) (o : Owner) :
    Except FileFault FileTree :=
  match output with
  | none => .ok tree
  | some path =>
    match tree.write? path (Yaml.write o.encode) with
    | some tree => .ok tree
    | none => .error (.unwritable path)

/-- Object and secret of a pass. -/
def readPass (tree : FileTree) (request : PassRequest) :
    Except FileFault (Owner × Table String) := do
  let object ← readFile (objectOfText? request.kind) tree request.file
  let secret ← readFile secretOfText? tree request.secret
  return (object, secret)

/-- The world of a pass: one object and one secret. -/
def passWorld (wire : τ) (o : Owner) (secret : Table String) : Owner × World τ :=
  let (stored, store) := ObjectStore.insert {} o
  (stored, {
    store
    secrets := SecretSource.insert {} o.metadata.space o.tenantRef secret
    backend := wire })

/-- The only kind of forge that a session knows. -/
def registryOf (transport : Http.Transport τ) (settings : Settings) : Registry τ :=
  Registry.ofList [GitLab.factory transport settings.client]

/-- Runs the pass that was asked for. -/
def performPass (s : Surroundings τ) (settings : Settings) (tree : FileTree)
    (request : PassRequest) : TaskResult τ :=
  match readPass tree request with
  | .error fault => ⟨.error (.file fault), tree, s.wire⟩
  | .ok (object, secret) =>
    let (object, world) := passWorld s.wire object secret
    let reconciler : Reconciler τ :=
      { settings, registry := registryOf s.transport settings, now := s.now }
    match reconciler.reconcile object world with
    | (.error failure, pass) =>
      ⟨.error (.pass pass.object.kind pass.object.key failure), tree, pass.world.backend⟩
    | (.ok outcome, pass) =>
      let m := pass.object.metadata
      let left := (pass.world.store.get? m.space m.name).getD pass.object
      match leaveObject tree request.output left with
      | .error fault => ⟨.error (.file fault), tree, pass.world.backend⟩
      | .ok tree =>
        ⟨.ok (.pass (reportOf outcome left pass.world.vault)), tree, pass.world.backend⟩

/-- Where an invocation finds its settings. -/
def Invocation.source (i : Invocation) : Settings.Source :=
  match i.config with
  | some path => .file path
  | none => .layers Settings.here

/-- The files that an invocation reads. -/
def Invocation.inputPaths (i : Invocation) : List String :=
  i.source.paths ++ match i.task with
    | .reconcile request => [request.file, request.secret]
    | .checkConfig => []

/-- Loads the settings and performs the task. -/
def execute (s : Surroundings τ) (environment : Table String) (tree : FileTree)
    (i : Invocation) : TaskResult τ :=
  match Settings.load tree environment i.source with
  | .error fault => ⟨.error (.settings fault), tree, s.wire⟩
  | .ok settings =>
    match i.task with
    | .checkConfig => ⟨.ok (.settings settings), tree, s.wire⟩
    | .reconcile request => performPass s settings tree request

theorem execute_checkConfig (s : Surroundings τ) (environment : Table String) (tree : FileTree)
    {i : Invocation} (h : i.task = .checkConfig) :
    (execute s environment tree i).tree = tree ∧ (execute s environment tree i).wire = s.wire := by
  unfold execute
  split
  · simp
  · simp [h]

end Tasks

/-! ## Processes -/

/-- What a process leaves behind on its outputs. -/
structure Ending where
  exitCode : UInt32
  stdout : String := ""
  stderr : String := ""
  deriving DecidableEq, Repr, Inhabited

/-- The name and the version that the program gives of itself. -/
def versionLine : String := "repokeeper 0.1.0\n"

/-- How the program is called. -/
def usageLine : String :=
  "Usage: repokeeper [--json] [--config FILE] check-config | reconcile --file FILE --secret FILE " ++
    "[--kind tenant|cluster] [--output FILE]\n"

/-- The end of a process whose arguments are no invocation. -/
def Ending.ofUsageFault (fault : UsageFault) : Ending :=
  match fault with
  | .helpWanted => { exitCode := 0, stdout := usageLine }
  | .versionWanted => { exitCode := 0, stdout := versionLine }
  | _ => { exitCode := 2, stderr := usageLine }

/-- The end of a process after its task. -/
def Ending.ofResult (json : Bool) : Except TaskFailure Report → Ending
  | .ok report => { exitCode := 0, stdout := report.text json }
  | .error failure =>
    { exitCode := 1
      stderr :=
        (if json then Json.pretty failure.encode else joinLines failure.lines) ++ "\n" }

end ForgeSync.CommandLine
