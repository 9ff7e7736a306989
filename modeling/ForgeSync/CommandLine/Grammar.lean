import ForgeSync.Owner.Basic

/-!
# The grammar of the command line

Arguments are read from left to right. Options may stand in any order, and the shared ones before
or behind the name of the task. An option with a value is only waiting for it until the next
argument: what it was given is checked when the option after it is read, or at the end. So the
fault that is reported is the first one in this order, and not the first one in the line.
-/

namespace ForgeSync.CommandLine

/-- Why a command line is no invocation. -/
inductive UsageFault where
  | helpWanted
  | versionWanted
  | nothingGiven
  | missingTask
  | unknownTask
  | missingArgument
  | unknownArgument
  | invalidValue
  | unneededValue
  | repeatedArgument
  deriving DecidableEq, Repr, Inhabited

namespace UsageFault

/-- The name of the fault. -/
def name : UsageFault → String
  | helpWanted => "DisplayHelp"
  | versionWanted => "DisplayVersion"
  | nothingGiven => "DisplayHelpOnMissingArgumentOrSubcommand"
  | missingTask => "MissingSubcommand"
  | unknownTask => "InvalidSubcommand"
  | missingArgument => "MissingRequiredArgument"
  | unknownArgument => "UnknownArgument"
  | invalidValue => "InvalidValue"
  | unneededValue => "TooManyValues"
  | repeatedArgument => "ArgumentConflict"

end UsageFault

inductive TaskName where
  | reconcile
  | checkConfig
  deriving DecidableEq, Repr, Inhabited

def TaskName.ofText? : String → Option TaskName
  | "reconcile" => some .reconcile
  | "check-config" => some .checkConfig
  | _ => none

/-- The word that asks for help in place of a task. -/
def helpWord : String := "help"

/-- Whether a word stands where a task is expected. -/
def isTaskWord (word : String) : Bool :=
  (TaskName.ofText? word).isSome || word = helpWord

inductive Flag where
  | json
  | config
  | file
  | secret
  | kind
  | output
  | help
  | version
  deriving DecidableEq, Repr, Inhabited

namespace Flag

def word : Flag → String
  | json => "json"
  | config => "config"
  | file => "file"
  | secret => "secret"
  | kind => "kind"
  | output => "output"
  | help => "help"
  | version => "version"

def letter : Flag → Char
  | json => 'j'
  | config => 'c'
  | file => 'f'
  | secret => 's'
  | kind => 'k'
  | output => 'o'
  | help => 'h'
  | version => 'V'

def takesValue : Flag → Bool
  | config | file | secret | kind | output => true
  | json | help | version => false

/-- Whether a value can be one of this option. -/
def accepts : Flag → String → Bool
  | kind, value => value = "tenant" ∨ value = "cluster"
  | _, value => value ≠ ""

/-- The options that are known before or behind the name of a task. -/
def known : Option TaskName → List Flag
  | none => [json, config, help, version]
  | some .reconcile => [file, secret, kind, output, json, config, help]
  | some .checkConfig => [json, config, help]

end Flag

/-- What has been given before, or behind, the name of the task. -/
structure Given where
  task : Option TaskName
  values : List (Flag × String) := []
  /-- The option that waits for its value, or whose value is not checked yet. -/
  waiting : Option (Flag × Option String) := none
  /-- Whether the rest of the line holds no options. -/
  literal : Bool := false
  deriving DecidableEq, Repr, Inhabited

namespace Given

def value? (g : Given) (flag : Flag) : Option String :=
  (g.values.find? (·.1 = flag)).map (·.2)

def has (g : Given) (flag : Flag) : Bool :=
  (g.value? flag).isSome

/-- Adds a value, which must be the first of its option. -/
def record (g : Given) (flag : Flag) (value : String) : Except UsageFault Given :=
  if g.has flag then .error .repeatedArgument
  else if flag.takesValue && !flag.accepts value then .error .invalidValue
  else .ok { g with values := g.values ++ [(flag, value)] }

/-- Checks what is waiting. -/
def settle (g : Given) : Except UsageFault Given :=
  match g.waiting with
  | none => .ok g
  | some (_, none) => .error .invalidValue
  | some (flag, some value) => { g with waiting := none }.record flag value

/-- An option without a value. -/
def withFlag (g : Given) (flag : Flag) : Except UsageFault Given := do
  let g ← g.settle
  match flag with
  | .help => throw .helpWanted
  | .version => throw .versionWanted
  | _ => g.record flag ""

/-- An option with its value, or with the value still to come. -/
def withOption (g : Given) (flag : Flag) (value : Option String) : Except UsageFault Given := do
  let g ← g.settle
  match value with
  | some v => g.record flag v
  | none => return { g with waiting := some (flag, none) }

/-- An option by its word, perhaps with a value behind an equals sign. -/
def withWord (g : Given) (cs : List Char) : Except UsageFault Given :=
  let word := String.ofList (cs.takeWhile (· ≠ '='))
  let value := match cs.dropWhile (· ≠ '=') with
    | [] => none
    | _ :: value => some (String.ofList value)
  match (Flag.known g.task).find? (·.word = word) with
  | none => .error .unknownArgument
  | some flag =>
    if flag.takesValue then g.withOption flag value
    else if value.isSome then .error .unneededValue
    else g.withFlag flag

/-- Options by their letters; the last may have its value behind it. -/
def withLetters (g : Given) : List Char → Except UsageFault Given
  | [] => .ok g
  | c :: rest =>
    match (Flag.known g.task).find? (·.letter = c) with
    | none => .error .unknownArgument
    | some flag =>
      if flag.takesValue then
        match rest with
        | [] => g.withOption flag none
        | '=' :: value => g.withOption flag (some (String.ofList value))
        | value => g.withOption flag (some (String.ofList value))
      else do
        let g ← g.withFlag flag
        g.withLetters rest

/-- The fault of a word that nothing waits for. -/
def unexpected (g : Given) (word : String) : UsageFault :=
  if g.task.isSome || (g.literal && isTaskWord word) then .unknownArgument else .unknownTask

/-- Whether an option waits for the next word. -/
def isWaiting (g : Given) : Bool :=
  match g.waiting with
  | some (_, none) => true
  | _ => false

/-- Takes the next argument. -/
def take (g : Given) (arg : String) : Except UsageFault Given :=
  if g.literal then .error (g.unexpected arg)
  else match arg.toList with
    | ['-', '-'] => .ok { g with literal := true }
    | '-' :: '-' :: rest => g.withWord rest
    | '-' :: c :: rest => g.withLetters (c :: rest)
    | _ =>
      match g.waiting with
      | some (flag, none) => .ok { g with waiting := some (flag, some arg) }
      | _ => .error (g.unexpected arg)

/-- Checks what is left, and lets the environment name the configuration where nothing else does.
-/
def finish (environment : Option String) (g : Given) : Except UsageFault Given := do
  let g ← g.settle
  match environment, g.has .config with
  | some path, false => g.record .config path
  | _, _ => return g

end Given

/-- A pass that is asked for. -/
structure PassRequest where
  kind : OwnerKind
  /-- The file with the object. -/
  file : String
  /-- The file with the connection secret. -/
  secret : String
  /-- The file that gets the object afterwards. -/
  output : Option String
  deriving DecidableEq, Repr, Inhabited

inductive Task where
  | reconcile (request : PassRequest)
  | checkConfig
  deriving DecidableEq, Repr, Inhabited

structure Invocation where
  /-- Whether reports and failures are written as data. -/
  json : Bool
  /-- The only file with settings. -/
  config : Option String
  task : Task
  deriving DecidableEq, Repr, Inhabited

namespace Invocation

/-- The variable of the environment that names the configuration. -/
def configVariable : String := "REPOKEEPER_CONFIG"

/-- What follows the word for help: the name of the task that help is wanted for. -/
def helpFault : List String → UsageFault
  | [] => .helpWanted
  | [word] => if isTaskWord word then .helpWanted else .unknownTask
  | _ => .unknownTask

/-- The task that was asked for, if nothing is missing. -/
def taskOf (name : TaskName) (g : Given) : Except UsageFault Task :=
  match name, g.value? .file, g.value? .secret with
  | .checkConfig, _, _ => .ok .checkConfig
  | .reconcile, some file, some secret =>
    .ok (.reconcile {
      kind := if g.value? .kind = some "cluster" then .cluster else .tenant
      file
      secret
      output := g.value? .output })
  | .reconcile, _, _ => .error .missingArgument

/-- What stands behind the name of a task. -/
def readTask (environment : Option String) (outer : Given) (name : TaskName)
    (args : List String) : Except UsageFault Invocation := do
  let inner ← args.foldlM Given.take { task := some name }
  let checked ← inner.finish environment
  let task ← taskOf name checked
  let outerChecked ← outer.finish environment
  let outerSettled ← outer.settle
  let innerSettled ← inner.settle
  return {
    json := checked.has .json || outerChecked.has .json
    config := (innerSettled.value? .config).or
      ((outerSettled.value? .config).or (checked.value? .config))
    task }

/-- The arguments from the beginning of the line on. -/
def readFrom (environment : Option String) : Given → List String → Except UsageFault Invocation
  | g, [] => do
    let g ← g.finish environment
    throw (if g.values.isEmpty then .nothingGiven else .missingTask)
  | g, arg :: rest => do
    if !g.literal && !g.isWaiting then
      if arg = helpWord then throw (helpFault rest)
      if let some name := TaskName.ofText? arg then return ← readTask environment g name rest
    readFrom environment (← g.take arg) rest

/-- The invocation that the arguments behind the name of the program spell. -/
def read (environment : Table String) (args : List String) : Except UsageFault Invocation :=
  readFrom environment[configVariable]? { task := none } args

end Invocation

end ForgeSync.CommandLine
