import ForgeSync.Forge.AccessToken
import ForgeSync.Forge.Project
import ForgeSync.Repository.DeployKey
import ForgeSync.Repository.Descriptor
import ForgeSync.Repository.Variable

/-!
# Calls to a forge

The calls that a forge understands, with their arguments. Doubles of a forge record them. A call
is written in a log as its operation and the one argument that tells calls of that operation
apart, for instance `add_deploy_key:ci`.

Main statement: only calls that read are named for getting or listing.
-/

namespace ForgeSync.Forge

inductive Call where
  | getProject (path : String)
  | createProject (space name description : String)
  | editDescription (path description : String)
  | deleteProject (path : String)
  | archiveProject (path : String)
  | listDeployKeys (path : String)
  | addDeployKey (path title : String) (key : DeployKey)
  | deleteDeployKey (path : String) (id : UInt64)
  | listTreePage (path : String) (page : Option String)
  | createCommit (path branch message : String) (actions : List CommitAction)
  | updateVariable (path : String) (v : CiVariable)
  | createVariable (path : String) (v : CiVariable)
  | deleteVariable (path key : String)
  | listAccessTokens (path : String)
  | createAccessToken (path : String) (request : NewAccessToken)
  deriving DecidableEq, Repr, Inhabited

namespace Call

/-- The name of the operation. -/
def operation : Call → String
  | getProject _ => "get_project"
  | createProject _ _ _ => "create_project"
  | editDescription _ _ => "edit_project_description"
  | deleteProject _ => "delete_project"
  | archiveProject _ => "archive_project"
  | listDeployKeys _ => "list_deploy_keys"
  | addDeployKey _ _ _ => "add_deploy_key"
  | deleteDeployKey _ _ => "delete_deploy_key"
  | listTreePage _ _ => "list_tree_page"
  | createCommit _ _ _ _ => "create_commit"
  | updateVariable _ _ => "update_ci_variable"
  | createVariable _ _ => "create_ci_variable"
  | deleteVariable _ _ => "delete_ci_variable"
  | listAccessTokens _ => "list_access_tokens"
  | createAccessToken _ _ => "create_access_token"

/-- The argument that a log shows: the path of the repository, or what within it is meant. -/
def subject : Call → String
  | createProject space name _ => Descriptor.joinPath space name
  | addDeployKey _ title _ => title
  | deleteDeployKey _ id => toString id.toNat
  | updateVariable _ v => v.key
  | createVariable _ v => v.key
  | deleteVariable _ key => key
  | createAccessToken _ request => request.name
  | getProject path => path
  | editDescription path _ => path
  | deleteProject path => path
  | archiveProject path => path
  | listDeployKeys path => path
  | listTreePage path _ => path
  | createCommit path _ _ _ => path
  | listAccessTokens path => path

/-- The call as a log shows it. -/
def logText (c : Call) : String :=
  c.operation ++ ":" ++ c.subject

/-- Whether a call may change what the forge holds. -/
def isMutating : Call → Bool
  | getProject _ => false
  | listDeployKeys _ => false
  | listTreePage _ _ => false
  | listAccessTokens _ => false
  | _ => true

/-- The short name of the operation. -/
def name : Call → String
  | getProject _ => "get_project"
  | createProject _ _ _ => "create_project"
  | editDescription _ _ => "edit_description"
  | deleteProject _ => "delete_project"
  | archiveProject _ => "archive_project"
  | listDeployKeys _ => "list_keys"
  | addDeployKey _ _ _ => "add_key"
  | deleteDeployKey _ _ => "delete_key"
  | listTreePage _ _ => "tree_page"
  | createCommit _ _ _ _ => "commit"
  | updateVariable _ _ => "update_var"
  | createVariable _ _ => "create_var"
  | deleteVariable _ _ => "delete_var"
  | listAccessTokens _ => "list_tokens"
  | createAccessToken _ _ => "create_token"

def arguments : Call → List Datum
  | getProject path => [.text path]
  | createProject space name description => [.text space, .text name, .text description]
  | editDescription path description => [.text path, .text description]
  | deleteProject path => [.text path]
  | archiveProject path => [.text path]
  | listDeployKeys path => [.text path]
  | addDeployKey path title key => [.text path, .text title, key.encode]
  | deleteDeployKey path id => [.text path, .ofWord id]
  | listTreePage path page => [.text path, Datum.ofOption .text page]
  | createCommit path branch message actions =>
    [.text path, .text branch, .text message, .list (actions.map CommitAction.encode)]
  | updateVariable path v => [.text path, v.encode]
  | createVariable path v => [.text path, v.encode]
  | deleteVariable path key => [.text path, .text key]
  | listAccessTokens path => [.text path]
  | createAccessToken path request => [.text path, request.encode]

/-- A call as its name and its arguments. -/
def encode (c : Call) : Datum :=
  .list [.text c.name, .list c.arguments]

end Call

end ForgeSync.Forge
