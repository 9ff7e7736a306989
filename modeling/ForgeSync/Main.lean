import ForgeSync.CommandLine.Session
import ForgeSync.Text.Utf8

/-!
# The program

Gathers what a session needs, runs it, and writes what it gives. The program is built without a
way to the network, so every server refuses it.
-/

namespace ForgeSync.Program

open CommandLine
open Calendar (Instant)

/-- The variables of the environment, as the system lists them. -/
def environmentOfList (listing : String) : Table String :=
  (listing.splitOn "\x00").foldl (fun table entry =>
    match entry.splitOn "=" with
    | name :: value => table.insert name ("=".intercalate value)
    | [] => table) ∅

def readEnvironment : IO (Table String) := do
  try
    let octets ← IO.FS.readBinFile "/proc/self/environ"
    return environmentOfList (Text.ofUtf8 octets.toList)
  catch _ => return ∅

/-- The files at paths, as far as they can be read. -/
def readFiles (paths : List String) : IO FileTree := do
  let mut tree : FileTree := {}
  for path in paths do
    try
      let content ← IO.FS.readFile path
      tree := tree.insert path content
    catch _ => pure ()
  return tree

/-- The directory in which a file shall be written, if it exists. -/
def readDirectory (path : String) : IO (List String) := do
  let directory := parentPath path
  try
    let found ← IO.FS.realPath (if directory.isEmpty then "." else directory)
    return if ← found.isDir then [directory] else []
  catch _ => return []

/-- The present time: that of a file which has just been made. -/
def now : IO Instant := do
  let (_, path) ← IO.FS.createTempFile
  let time := (← path.metadata).modified
  IO.FS.removeFile path
  return ⟨time.sec, time.nsec.toNat⟩

def finish (ending : Ending) : IO UInt32 := do
  (← IO.getStdout).putStr ending.stdout
  (← IO.getStderr).putStr ending.stderr
  return ending.exitCode

/-- The file in which a task leaves its object. -/
def outputPath? : Task → Option String
  | .reconcile request => request.output
  | .checkConfig => none

/-- Leaves the object of a successful pass on disk. -/
def writeOutput (result : TaskResult Unit) (path : String) : IO (Except TaskFailure Report) := do
  match result.result, result.tree.read? path with
  | .ok report, some content =>
    try
      IO.FS.writeFile path content
      return .ok report
    catch _ => return .error (.file (.unwritable path))
  | outcome, _ => return outcome

def run (args : List String) : IO UInt32 := do
  let environment ← readEnvironment
  match Invocation.read environment args with
  | .error fault => finish (.ofUsageFault fault)
  | .ok invocation =>
    let output := outputPath? invocation.task
    let directories ← match output with
      | some path => readDirectory path
      | none => pure []
    let files ← readFiles invocation.inputPaths
    let surroundings : Surroundings Unit := { transport := .refusing, wire := (), now := ← now }
    let result := execute surroundings environment { files with directories } invocation
    let outcome ← match output with
      | some path => writeOutput result path
      | none => pure result.result
    finish (.ofResult invocation.json outcome)

end ForgeSync.Program

def main (args : List String) : IO UInt32 :=
  ForgeSync.Program.run args
