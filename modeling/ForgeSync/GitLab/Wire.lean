import ForgeSync.Forge.AccessToken
import ForgeSync.Forge.Project
import ForgeSync.Repository.Variable

/-!
# GitLab's data

The records that GitLab sends, read into the library's own, and the bodies that it wants. GitLab
gives the end of a token as a date: the token ends when that date begins, and a token without a
date never ends.
-/

namespace ForgeSync.GitLab

open Calendar (Civil Instant)

/-! ## Answers -/

def decodeProject? (d : Datum) : Option RemoteRepository :=
  match d.fields? ["id", "path_with_namespace", "description", "default_branch", "web_url",
      "ssh_url_to_repo", "archived"] with
  | some [id, fullPath, description, defaultBranch, webUrl, sshUrl, archived] => do
    return {
      id := ← Datum.required Datum.word64? id
      fullPath := ← Datum.required Datum.text? fullPath
      description := (← Datum.option Datum.text? description).getD ""
      defaultBranch := ← Datum.option Datum.text? defaultBranch
      webUrl := ← Datum.defaulted "" Datum.text? webUrl
      sshUrl := ← Datum.defaulted "" Datum.text? sshUrl
      archived := ← Datum.defaulted false Datum.bool? archived }
  | _ => none

/-- The identifier of a namespace. -/
def decodeNamespace? (d : Datum) : Option UInt64 :=
  match d.fields? ["id", "full_path"] with
  | some [id, fullPath] => do
    let _ ← Datum.required Datum.text? fullPath
    Datum.required Datum.word64? id
  | _ => none

def decodeDeployKey? (d : Datum) : Option RemoteDeployKey :=
  RemoteDeployKey.decode? d

/-- An entry of a tree: a path, and whether a file stands there. -/
structure TreeEntry where
  path : String
  isFile : Bool
  deriving DecidableEq, Repr, Inhabited

def decodeTreeEntry? (d : Datum) : Option TreeEntry :=
  match d.fields? ["path", "type"] with
  | some [path, entryType] => do
    return {
      path := ← Datum.required Datum.text? path
      isFile := (← Datum.required Datum.text? entryType) = "blob" }
  | _ => none

def decodeDate? (d : Datum) : Option Civil :=
  d.text? >>= Civil.read?

/-- When a token with a date ends. -/
def endOfToken (date : Option Civil) : Instant :=
  date.elim Instant.last Instant.ofDate

def decodeToken? (d : Datum) : Option AccessTokenRecord :=
  match d.fields? ["id", "name", "active", "revoked", "expires_at", "scopes", "token"] with
  | some [id, name, active, revoked, expiresAt, scopes, token] => do
    return {
      uid := ← Datum.required Datum.word64? id
      name := ← Datum.required Datum.text? name
      active := ← Datum.defaulted false Datum.bool? active
      revoked := ← Datum.defaulted false Datum.bool? revoked
      expiresAt := endOfToken (← Datum.option decodeDate? expiresAt)
      scopes := ← Datum.defaulted [] Datum.texts? scopes
      token := ← Datum.option Datum.text? token }
  | _ => none

/-! ## Bodies -/

def projectBody (name description : String) (space : Option UInt64) : Datum :=
  .map ([("name", .text name), ("path", .text name)] ++
    Datum.memberIfSome "namespace_id" .ofWord space ++ [("description", .text description)])

def descriptionBody (description : String) : Datum :=
  .map [("description", .text description)]

def deployKeyBody (title key : String) (canPush : Bool) : Datum :=
  .map [("title", .text title), ("key", .text key), ("can_push", .bool canPush)]

def actionBody : CommitAction → Datum
  | .create path content =>
    .map [("action", .text "create"), ("file_path", .text path), ("content", .text content)]
  | .delete path => .map [("action", .text "delete"), ("file_path", .text path)]

def commitBody (branch message : String) (actions : List CommitAction) : Datum :=
  .map [("branch", .text branch), ("commit_message", .text message),
    ("actions", .list (actions.map actionBody))]

def variableBody (v : CiVariable) : Datum :=
  v.encode

/-- The end of a new token, as a date. -/
def tokenBody (request : NewAccessToken) : Datum :=
  .map [("name", .text request.name), ("scopes", Datum.ofTexts request.scopes),
    ("access_level", .ofNat request.accessLevel),
    ("expires_at", .text request.expiresAt.date.text)]

end ForgeSync.GitLab
