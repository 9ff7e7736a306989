import ForgeSync.Datum

/-!
# What a forge holds

The things that a forge tells about a repository, and the changes that one commit makes. None of
it is kept between passes: every pass asks anew.
-/

namespace ForgeSync

/-- A repository as it exists on a forge. -/
structure RemoteRepository where
  id : UInt64
  fullPath : String
  description : String := ""
  defaultBranch : Option String := none
  webUrl : String := ""
  sshUrl : String := ""
  /-- An archived repository is read-only. -/
  archived : Bool := false
  deriving DecidableEq, Repr, Inhabited

namespace RemoteRepository

def encode (r : RemoteRepository) : Datum :=
  .map [("id", .ofWord r.id), ("full_path", .text r.fullPath),
    ("description", .text r.description),
    ("default_branch", Datum.ofOption .text r.defaultBranch), ("web_url", .text r.webUrl),
    ("ssh_url", .text r.sshUrl), ("archived", .bool r.archived)]

def fieldNames : List String :=
  ["id", "full_path", "description", "default_branch", "web_url", "ssh_url", "archived"]

def decode? (d : Datum) : Option RemoteRepository :=
  match d.fields? fieldNames with
  | some [id, fullPath, description, defaultBranch, webUrl, sshUrl, archived] => do
    return {
      id := ← Datum.required Datum.word64? id
      fullPath := ← Datum.required Datum.text? fullPath
      description := ← Datum.defaulted "" Datum.text? description
      defaultBranch := ← Datum.option Datum.text? defaultBranch
      webUrl := ← Datum.defaulted "" Datum.text? webUrl
      sshUrl := ← Datum.defaulted "" Datum.text? sshUrl
      archived := ← Datum.defaulted false Datum.bool? archived }
  | _ => none

end RemoteRepository

/-- A deploy key as a forge lists it. -/
structure RemoteDeployKey where
  id : UInt64
  title : String
  /-- The key as a line, perhaps with a comment. -/
  key : String
  canPush : Bool := false
  deriving DecidableEq, Repr, Inhabited

namespace RemoteDeployKey

def encode (k : RemoteDeployKey) : Datum :=
  .map [("id", .ofWord k.id), ("title", .text k.title), ("key", .text k.key),
    ("can_push", .bool k.canPush)]

def decode? (d : Datum) : Option RemoteDeployKey :=
  match d.fields? ["id", "title", "key", "can_push"] with
  | some [id, title, key, canPush] => do
    return {
      id := ← Datum.required Datum.word64? id
      title := ← Datum.required Datum.text? title
      key := ← Datum.required Datum.text? key
      canPush := ← Datum.defaulted false Datum.bool? canPush }
  | _ => none

end RemoteDeployKey

/-- One page of a listing of all files. -/
structure TreePage where
  paths : List String := []
  /-- Where the listing goes on; nothing or an empty text on the last page. -/
  nextPage : Option String := none
  deriving DecidableEq, Repr, Inhabited

namespace TreePage

def encode (p : TreePage) : Datum :=
  .map [("paths", Datum.ofTexts p.paths), ("next_page", Datum.ofOption .text p.nextPage)]

def decode? (d : Datum) : Option TreePage :=
  match d.fields? ["paths", "next_page"] with
  | some [paths, nextPage] => do
    return {
      paths := ← Datum.defaulted [] Datum.texts? paths
      nextPage := ← Datum.option Datum.text? nextPage }
  | _ => none

end TreePage

/-- One change within a commit. -/
inductive CommitAction where
  | create (path content : String)
  | delete (path : String)
  deriving DecidableEq, Repr, Inhabited

namespace CommitAction

def path : CommitAction → String
  | create path _ => path
  | delete path => path

def isDelete : CommitAction → Bool
  | create _ _ => false
  | delete _ => true

def encode (a : CommitAction) : Datum :=
  .map ([("path", .text a.path), ("is_delete", .bool a.isDelete)] ++
    match a with
    | create _ content => [("create", .text content)]
    | delete _ => [])

/-- An action with content creates, and one without deletes. -/
def decode? (d : Datum) : Option CommitAction :=
  match d.fields? ["path", "create"] with
  | some [path, content] => do
    let path ← Datum.defaulted "" Datum.text? path
    return match ← Datum.option Datum.text? content with
      | some content => create path content
      | none => delete path
  | _ => none

end CommitAction

end ForgeSync
