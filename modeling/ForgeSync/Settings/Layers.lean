import ForgeSync.FileTree
import ForgeSync.Settings.Basic
import ForgeSync.Settings.Inline
import ForgeSync.Yaml.Node

/-!
# Settings in layers

Settings come from several places, each of which says only what it wants to say. A later layer
lies over an earlier one: maps are merged member by member, and everything else is replaced. The
layers are, from below: the defaults, the shared file of a directory, the local file of it, and
the environment.
-/

namespace ForgeSync

namespace Datum

/-- Sets a member of a map in its place, or adds it at the end. -/
def setMember (members : List (String × Datum)) (key : String) (value : Datum) :
    List (String × Datum) :=
  if members.any (·.1 = key) then
    members.map fun (k, v) => if k = key then (k, value) else (k, v)
  else members ++ [(key, value)]

mutual

/-- A layer over what lies below it. -/
def overlay (base : Datum) : Datum → Datum
  | .map members => .map (overlayMembers (match base with
      | .map below => below
      | _ => []) members)
  | d => d

def overlayMembers (below : List (String × Datum)) : List (String × Datum) →
    List (String × Datum)
  | [] => below
  | (key, value) :: rest =>
    let merged := overlay ((lookup? below key).getD .null) value
    overlayMembers (setMember below key merged) rest

end

end Datum

namespace Settings

/-! ## The environment as a layer -/

/-- How the variables begin that speak of settings. -/
def variableStart : String := "repokeeper_"

/-- A value below names. The first empty name ends them. -/
def nest (value : Datum) : List String → Datum
  | [] => value
  | name :: rest => if name.isEmpty then value else .map [(name, nest value rest)]

/-- What a variable says about settings, if it does. The case of its name does not matter, and two
underscores lead from a name to a name below it. -/
def ofVariable? (name value : String) : Option Datum :=
  let name := name.map Char.toLower
  if name.startsWith variableStart then
    let names := ((((name.drop variableStart.length).toString.replace "__" ".").splitOn "."))
    if names.head? = some "" then none else some (nest (Inline.read value) names)
  else none

/-- What the environment says about settings. -/
def ofEnvironment (environment : Table String) : Datum :=
  (environment.toList.filterMap fun (name, value) => ofVariable? name value).foldl
    Datum.overlay (.map [])

/-! ## Files as layers -/

/-- The layer in a text: a map, or nothing. -/
def ofText? (s : String) : Option Datum :=
  match Yaml.document? s with
  | none => none
  | some none => some (.map [])
  | some (some n) =>
    match n with
    | .scalar true _ "" => some (.map [])
    | .mapping _ _ => n.resolved?.map Datum.lastMembers
    | _ => none

/-- The layer in a file; a file that does not exist says nothing. -/
def ofFile? (tree : FileTree) (path : String) : Option Datum :=
  match tree.read? path with
  | none => some (.map [])
  | some s => ofText? s

/-! ## Loading -/

/-- Where settings in layers are kept below a directory. -/
def directoryName : String := ".repokeeper"

/-- The files with the layers of a directory. -/
def layerPaths (directory : String) : List String :=
  let inner := joinPath directory directoryName
  [joinPath inner "config.yaml", joinPath inner "local.yaml"]

/-- The directory in which a process runs. -/
def here : String := "."

/-- Where settings are looked for. -/
inductive Source where
  /-- The files of a directory, and the environment. -/
  | layers (directory : String)
  /-- One file and nothing else. -/
  | file (path : String)
  deriving DecidableEq, Repr, Inhabited

/-- Why there are no settings. -/
inductive LoadFault where
  /-- The layers cannot be read as settings. -/
  | unreadable (source : Source)
  | refused (fault : SettingsFault)
  deriving DecidableEq, Repr, Inhabited

def LoadFault.message : LoadFault → String
  | unreadable (.layers _) => "Failed to extract configuration from figment"
  | unreadable (.file path) => "Failed to load config from " ++ path
  | refused fault => fault.message

/-- The paths of the files that a source consists of. -/
def Source.paths : Source → List String
  | layers directory => layerPaths directory
  | file path => [path]

/-- The layers of a source over the defaults. -/
def Source.layers? (source : Source) (tree : FileTree) (environment : Table String) :
    Option (List Datum) := do
  let files ← source.paths.mapM (ofFile? tree)
  match source with
  | layers _ => return files ++ [ofEnvironment environment]
  | file _ => return files

/-- The settings that layers make over the defaults. -/
def ofLayers? (layers : List Datum) : Option Settings :=
  decode? (layers.foldl Datum.overlay ({} : Settings).encode)

/-- Settings that were read and are accepted. -/
def load (tree : FileTree) (environment : Table String) (source : Source) :
    Except LoadFault Settings :=
  match source.layers? tree environment >>= ofLayers? with
  | none => .error (.unreadable source)
  | some settings =>
    match settings.validate with
    | .ok () => .ok settings
    | .error fault => .error (.refused fault)

end Settings

end ForgeSync
