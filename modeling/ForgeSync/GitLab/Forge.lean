import ForgeSync.Forge.Basic
import ForgeSync.GitLab.Client
import ForgeSync.GitLab.Wire
import ForgeSync.Registry

/-!
# GitLab as a forge

The calls of a forge as requests to GitLab, and the factory that recognises GitLab's endpoints.
Self-hosted instances seldom carry the name, so every endpoint of the web with a host is taken for
one.
-/

namespace ForgeSync.GitLab

/-- The name of the provider type. -/
def providerType : String := "gitlab"

/-- A call to GitLab as an action on the state of its transport. -/
def Exchange.act {τ α : Type} (call : Exchange τ α) : Act τ α :=
  Act.ofFunction fun s =>
    let (outcome, s) := (ExceptT.run call).run s
    (outcome.mapError Fault.toFailure, s)

namespace Client

variable {τ : Type} (transport : Http.Transport τ) (c : Client)

/-- The address of a project, or of something that belongs to it. -/
def projectUrl (path : String) (below : List String) : Url :=
  c.url ("projects" :: path :: below)

/-- All items of a listing. -/
def listing {α : Type} (decode : Datum → Option α) (url : Url) : Act τ (List α) := do
  match ← (c.getPages transport decode url (transport.patience (← MonadState.get)) none).act with
  | some items => return items
  | none => throw .unfinished

/-- The identifier of a namespace; the root has none. -/
def spaceId (space : String) : Exchange τ (Option UInt64) :=
  let space := Text.trimOf (· = '/') space
  if space.isEmpty then pure none
  else some <$> c.get transport decodeNamespace? (c.url ["namespaces", space])

def createProject (space name description : String) : Exchange τ RemoteRepository := do
  let id ← c.spaceId transport space
  c.post transport decodeProject? (c.url ["projects"]) (projectBody name description id)

/-- One page of the files of a project; folders are left out. -/
def treePage (path : String) (page : Option String) : Exchange τ TreePage := do
  let url := (c.projectUrl path ["repository", "tree"]).addQueryField "recursive" "true"
  let answer ← c.getPage transport decodeTreeEntry? url page
  return { paths := (answer.items.filter (·.isFile)).map (·.path), nextPage := answer.nextPage }

/-- Creates a token; an answer without the secret is of no use. -/
def createToken (path : String) (request : NewAccessToken) : Act τ AccessTokenRecord := do
  let created ← (c.post transport decodeToken? (c.projectUrl path ["access_tokens"])
    (tokenBody request)).act
  if created.token.isSome then return created
  else
    throw (.provider ("GitLab returned access token " ++ toString created.uid.toNat ++
      " without its secret"))

/-- The forge behind a client. -/
def forge : Forge τ where
  providerType := providerType
  baseUrl := c.endpoint
  pageBudget := transport.patience
  getProject path := (c.getOptional transport decodeProject? (c.projectUrl path [])).act
  createProject space name description := (c.createProject transport space name description).act
  editDescription path description :=
    (c.perform transport .put (c.projectUrl path []) (descriptionBody description)).act
  deleteProject path := (c.perform transport .delete (c.projectUrl path []) none).act
  archiveProject path := (c.perform transport .post (c.projectUrl path ["archive"]) none).act
  listDeployKeys path := c.listing transport decodeDeployKey? (c.projectUrl path ["deploy_keys"])
  addDeployKey path title key := Exchange.act do
    let _ ← c.post transport decodeDeployKey? (c.projectUrl path ["deploy_keys"])
      (deployKeyBody title key.authorizedKey key.writeAccess)
    return ()
  deleteDeployKey path id :=
    (c.perform transport .delete (c.projectUrl path ["deploy_keys", toString id.toNat]) none).act
  listTreePage path page := (c.treePage transport path page).act
  createCommit path branch message actions :=
    (c.perform transport .post (c.projectUrl path ["repository", "commits"])
      (commitBody branch message actions)).act
  updateVariable path v :=
    (c.perform transport .put (c.projectUrl path ["variables", v.key]) (variableBody v)).act
  createVariable path v :=
    (c.perform transport .post (c.projectUrl path ["variables"]) (variableBody v)).act
  deleteVariable path key :=
    (c.perform transport .delete (c.projectUrl path ["variables", key]) none).act
  listAccessTokens path := c.listing transport decodeToken? (c.projectUrl path ["access_tokens"])
  createAccessToken path request := c.createToken transport path request

end Client

/-- Whether an endpoint is taken for one of GitLab. -/
def acceptsEndpoint (endpoint : String) : Bool :=
  match Url.read endpoint with
  | .ok url => (url.scheme = "http" || url.scheme = "https") && url.host?.isSome
  | .error _ => false

/-- The factory for GitLab, over a transport. -/
def factory {τ : Type} (transport : Http.Transport τ) (settings : ClientSettings) : Factory τ where
  providerType := providerType
  accepts := acceptsEndpoint
  connect connection :=
    match Client.connect connection.endpoint connection.token settings with
    | .ok client => .ok (client.forge transport)
    | .error fault => .error fault.toFailure

end ForgeSync.GitLab
