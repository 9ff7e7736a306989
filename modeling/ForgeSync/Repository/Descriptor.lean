import ForgeSync.Repository.DeployKey
import ForgeSync.Repository.Policy
import ForgeSync.Repository.TemplateFile
import ForgeSync.Repository.Variable
import ForgeSync.Text.Blank

/-!
# Descriptors

The declared state of one repository. A descriptor belongs to a tenant or a cluster; what it
leaves open is filled in from its owner and the settings before it is acted upon.
-/

namespace ForgeSync

/-- The repository type that leaves the choice of a provider to the endpoint. -/
def autoRepoType : String := "auto"

structure Descriptor where
  /-- The namespace that the repository lies in. -/
  path : String
  repoName : String
  displayName : Option String := none
  repoType : Option String := none
  deployKeys : Table DeployKey := ∅
  templateFiles : Table FileOp := ∅
  deletionPolicy : Option DeletionPolicy := none
  creationPolicy : Option CreationPolicy := none
  /-- The name of the access token that is wanted, if one is. -/
  accessToken : Option String := none
  ciVariables : List CiVariable := []
  deriving DecidableEq, Inhabited

namespace Descriptor

/-- A namespace and a name as one path; slashes at the ends of the namespace do not count. -/
def joinPath (space name : String) : String :=
  let trimmed := Text.trimOf (· = '/') space
  if trimmed.isEmpty then name else trimmed ++ "/" ++ name

/-- The path of the repository on the forge. -/
def fullPath (repo : Descriptor) : String :=
  joinPath repo.path repo.repoName

/-- The repository type in force. -/
def effectiveRepoType (repo : Descriptor) : String :=
  repo.repoType.getD autoRepoType

/-- The display name in force: the repository's name where none is given. -/
def effectiveDisplayName (repo : Descriptor) : String :=
  repo.displayName.getD repo.repoName

def effectiveDeletionPolicy (repo : Descriptor) : DeletionPolicy :=
  repo.deletionPolicy.getD .retain

def effectiveCreationPolicy (repo : Descriptor) : CreationPolicy :=
  repo.creationPolicy.getD .create

def withDeployKey (repo : Descriptor) (title : String) (key : DeployKey) : Descriptor :=
  { repo with deployKeys := repo.deployKeys.insert title key }

def withTemplateFile (repo : Descriptor) (path : String) (op : FileOp) : Descriptor :=
  { repo with templateFiles := repo.templateFiles.insert path op }

def withCiVariable (repo : Descriptor) (v : CiVariable) : Descriptor :=
  { repo with ciVariables := repo.ciVariables ++ [v] }

/-! ## As data -/

def encodeAccessToken (name : String) : Datum :=
  .map [("name", .text name)]

def decodeAccessToken? (d : Datum) : Option String :=
  match d.fields? ["name"] with
  | some [name] => Datum.required Datum.text? name
  | _ => none

def encode (repo : Descriptor) : Datum :=
  .map (
    [("path", .text repo.path), ("repoName", .text repo.repoName)] ++
    Datum.memberIfSome "displayName" .text repo.displayName ++
    Datum.memberIfSome "repoType" .text repo.repoType ++
    [("deployKeys", Datum.ofTable DeployKey.encode repo.deployKeys),
      ("templateFiles", Datum.ofTable FileOp.encode repo.templateFiles)] ++
    Datum.memberIfSome "deletionPolicy" DeletionPolicy.encode repo.deletionPolicy ++
    Datum.memberIfSome "creationPolicy" CreationPolicy.encode repo.creationPolicy ++
    Datum.memberIfSome "accessToken" encodeAccessToken repo.accessToken ++
    (if repo.ciVariables.isEmpty then []
      else [("ciVariables", .list (repo.ciVariables.map CiVariable.encode))]))

def fieldNames : List String :=
  ["path", "repoName", "displayName", "repoType", "deployKeys", "templateFiles", "deletionPolicy",
    "creationPolicy", "accessToken", "ciVariables"]

def decode? (d : Datum) : Option Descriptor :=
  match d.fields? fieldNames with
  | some [path, repoName, displayName, repoType, deployKeys, templateFiles, deletionPolicy,
      creationPolicy, accessToken, ciVariables] => do
    return {
      path := ← Datum.defaulted "" Datum.text? path
      repoName := ← Datum.required Datum.text? repoName
      displayName := ← Datum.option Datum.text? displayName
      repoType := ← Datum.option Datum.text? repoType
      deployKeys := ← Datum.defaulted ∅ (Datum.tableOf? DeployKey.decode?) deployKeys
      templateFiles := ← Datum.defaulted ∅ (Datum.tableOf? FileOp.decode?) templateFiles
      deletionPolicy := ← Datum.option DeletionPolicy.decode? deletionPolicy
      creationPolicy := ← Datum.option CreationPolicy.decode? creationPolicy
      accessToken := ← Datum.option decodeAccessToken? accessToken
      ciVariables := ← Datum.defaulted [] (Datum.listOf? CiVariable.decode?) ciVariables }
  | _ => none

end Descriptor

end ForgeSync
