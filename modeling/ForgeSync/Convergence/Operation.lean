import ForgeSync.Convergence.Repository
import ForgeSync.Forge.Call

/-!
# Operations as values

Everything that can be asked of a forge: its own calls, the walks and comparisons built on them,
and the operations on a declared repository. As a value an operation can be read from data,
performed on any forge, and its answer shown as data.
-/

namespace ForgeSync

open Calendar (Instant)

inductive Operation where
  | providerType
  | baseUrl
  | call (c : Forge.Call)
  | fetchTree (path : String)
  | syncFiles (repo : Descriptor) (branch : Option String)
  | reconcileVariables (path : String) (managed : List String) (wanted : List CiVariable)
  /-- The time may be fixed for this operation alone. -/
  | ensureToken (path name : String) (hint : Option UInt64) (now : Option Instant)
  | cloneUrl (repo : Descriptor)
  | read (repo : Descriptor)
  | create (repo : Descriptor)
  | update (repo : Descriptor)
  | delete (repo : Descriptor)
  | archive (repo : Descriptor)
  | remove (repo : Descriptor)
  | commitTemplate (repo : Descriptor)
  | settleVariables (repo : Descriptor) (managed : List String) (wanted : List CiVariable)

namespace Operation

section Performing

variable {σ : Type} (forge : Forge σ)

def done (_ : Unit) : Datum := .null

/-- Makes a call. -/
def performCall : Forge.Call → Act σ Datum
  | .getProject path => Datum.ofOption RemoteRepository.encode <$> forge.getProject path
  | .createProject space name description =>
    RemoteRepository.encode <$> forge.createProject space name description
  | .editDescription path description => done <$> forge.editDescription path description
  | .deleteProject path => done <$> forge.deleteProject path
  | .archiveProject path => done <$> forge.archiveProject path
  | .listDeployKeys path =>
    (fun keys => .list (keys.map RemoteDeployKey.encode)) <$> forge.listDeployKeys path
  | .addDeployKey path title key => done <$> forge.addDeployKey path title key
  | .deleteDeployKey path id => done <$> forge.deleteDeployKey path id
  | .listTreePage path page => TreePage.encode <$> forge.listTreePage path page
  | .createCommit path branch message actions =>
    done <$> forge.createCommit path branch message actions
  | .updateVariable path v => done <$> forge.updateVariable path v
  | .createVariable path v => done <$> forge.createVariable path v
  | .deleteVariable path key => done <$> forge.deleteVariable path key
  | .listAccessTokens path =>
    (fun tokens => .list (tokens.map AccessTokenRecord.encode)) <$> forge.listAccessTokens path
  | .createAccessToken path request =>
    AccessTokenRecord.encode <$> forge.createAccessToken path request

/-- Performs an operation at a time. -/
def perform (now : Instant) : Operation → Act σ Datum
  | providerType => pure (.text forge.providerType)
  | baseUrl => pure (.text forge.baseUrl)
  | call c => performCall forge c
  | fetchTree path => (fun paths => Datum.ofTexts paths.toList) <$> forge.fetchTree path
  | syncFiles repo branch => Datum.ofNat <$> forge.syncFiles repo branch
  | reconcileVariables path managed wanted =>
    VariableReport.encode <$> forge.reconcileVariables path managed wanted
  | ensureToken path name hint fixed =>
    AccessTokenGrant.encode <$> forge.ensureAccessToken (fixed.getD now) path name hint
  | cloneUrl repo => pure (.text (forge.cloneUrl repo))
  | read repo => Datum.ofOption RemoteRepository.encode <$> forge.readRepository repo
  | create repo => done <$> forge.createRepository repo
  | update repo => Datum.bool <$> forge.updateRepository repo
  | delete repo => done <$> forge.deleteRepository repo
  | archive repo => done <$> forge.archiveRepository repo
  | remove repo => done <$> forge.removeRepository repo
  | commitTemplate repo => done <$> forge.commitTemplate repo
  | settleVariables repo managed wanted =>
    (fun _ => .null) <$> forge.reconcileVariables repo.fullPath managed wanted

end Performing

/-! ## From data -/

/-- Why data is no operation. -/
inductive ReadFault where
  | unknown (name : String)
  | malformed
  deriving DecidableEq, Repr

/-- The arguments of an operation by name; a text that is not given is empty. -/
structure Arguments where
  members : List (String × Datum)

namespace Arguments

def get? (a : Arguments) (name : String) : Option Datum :=
  (Datum.lookup? a.members name).filter (!·.isNull)

def text? (a : Arguments) (name : String) : Option String :=
  a.get? name >>= Datum.text?

def text (a : Arguments) (name : String) : String :=
  (a.text? name).getD ""

def nat (a : Arguments) (name : String) : Nat :=
  ((a.get? name >>= Datum.int?).map Int.toNat).getD 0

def required {α : Type} (a : Arguments) (name : String) (decode : Datum → Option α) : Option α :=
  a.get? name >>= decode

def listed {α : Type} (a : Arguments) (name : String) (decode : Datum → Option α) :
    Option (List α) :=
  (a.get? name).elim (some []) (Datum.listOf? decode)

def optional {α : Type} (a : Arguments) (name : String) (decode : Datum → Option α) :
    Option (Option α) :=
  (a.get? name).elim (some none) fun d => (decode d).map some

def repo (a : Arguments) : Option Descriptor :=
  a.required "repo" Descriptor.decode?

end Arguments

/-- The call of a short name, if there is one. -/
def readCall? (name : String) (a : Arguments) : Option (Option Forge.Call) :=
  let path := a.text "path"
  match name with
  | "get_project" => some (some (.getProject path))
  | "create_project" =>
    some (some (.createProject (a.text "namespace") (a.text "name") (a.text "description")))
  | "edit_description" => some (some (.editDescription path (a.text "description")))
  | "delete_project" => some (some (.deleteProject path))
  | "archive_project" => some (some (.archiveProject path))
  | "list_keys" => some (some (.listDeployKeys path))
  | "add_key" => some do
    return .addDeployKey path (a.text "title") (← a.required "key" DeployKey.decode?)
  | "delete_key" => some (some (.deleteDeployKey path (UInt64.ofNat (a.nat "id"))))
  | "tree_page" => some (some (.listTreePage path (a.text? "page")))
  | "commit" => some do
    return .createCommit path (a.text "branch") (a.text "message")
      (← a.listed "actions" CommitAction.decode?)
  | "update_var" => some do
    return .updateVariable path (← a.required "variable" CiVariable.decode?)
  | "create_var" => some do
    return .createVariable path (← a.required "variable" CiVariable.decode?)
  | "delete_var" => some (some (.deleteVariable path (a.text "name")))
  | "list_tokens" => some (some (.listAccessTokens path))
  | "create_token" => some do
    return .createAccessToken path {
      name := a.text "name"
      scopes := ← a.listed "scopes" Datum.text?
      accessLevel := a.nat "access_level"
      expiresAt := ← a.required "expires_at" Instant.decode? }
  | _ => none

/-- The operation of a name that is no call, if there is one. -/
def readOther? (name : String) (a : Arguments) : Option (Option Operation) :=
  let onRepo (f : Descriptor → Operation) : Option (Option Operation) := some (a.repo.map f)
  let forVariables (f : List String → List CiVariable → Operation) : Option Operation := do
    return f (← a.listed "managed" Datum.text?) (← a.listed "desired" CiVariable.decode?)
  match name with
  | "provider_type" => some (some providerType)
  | "p_type" => some (some providerType)
  | "base_url" => some (some baseUrl)
  | "fetch_tree" => some (some (fetchTree (a.text "path")))
  | "sync_files" => onRepo fun repo => syncFiles repo (a.text? "default_branch")
  | "reconcile_ci" => some (forVariables (reconcileVariables (a.text "path")))
  | "ensure_token" => some do
    return ensureToken (a.text "path") (a.text "name") (← a.optional "hint" Datum.word64?)
      (← a.optional "now" Instant.decode?)
  | "p_full_url" => onRepo cloneUrl
  | "p_read" => onRepo read
  | "p_create" => onRepo create
  | "p_update" => onRepo update
  | "p_delete" => onRepo delete
  | "p_archive" => onRepo archive
  | "p_remove" => onRepo remove
  | "p_commit_files" => onRepo commitTemplate
  | "p_ensure_token" => some do
    return ensureToken (← a.repo).fullPath (a.text "name") (← a.optional "hint" Datum.word64?) none
  | "p_ensure_ci" => some do
    let repo ← a.repo
    forVariables (settleVariables repo)
  | _ => none

/-- The operation that data describes, under a name. -/
def read? (name : String) (members : List (String × Datum)) : Except ReadFault Operation :=
  let a : Arguments := ⟨members⟩
  match (readCall? name a).map (·.map call) |>.or (readOther? name a) with
  | none => .error (.unknown name)
  | some none => .error .malformed
  | some (some op) => .ok op

end Operation

end ForgeSync
