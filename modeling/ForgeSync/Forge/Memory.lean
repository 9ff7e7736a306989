import ForgeSync.Forge.Basic
import ForgeSync.Forge.Call
import ForgeSync.Repository.Descriptor
import ForgeSync.Text.Decimal

/-!
# A forge in memory

A small forge that keeps its repositories in a table by path. It records every call, and a call
can be made to fail, either every call of one operation or a single one by its log text. A call
that fails leaves every repository as it was.

Identifiers come from one counter; a call that needs one takes it before it looks for the
repository. The counter and the positions in a listing are 64-bit words, and the program halts where
one of them would run over. A state tells whether that has happened on the way to it; if it has,
there is nothing else that the state tells about the program.
-/

namespace ForgeSync.Forge.Memory

/-- What the forge keeps of one repository. -/
structure Project where
  repository : RemoteRepository
  deployKeys : List RemoteDeployKey := []
  files : Table String := ∅
  ciVariables : Table CiVariable := ∅
  tokens : List AccessTokenRecord := []
  /-- The branch of every commit, oldest first. -/
  commitBranches : List String := []
  deriving DecidableEq, Inhabited

/-- What never changes about a forge. -/
structure Site where
  /-- The address, without a slash at its end. -/
  baseUrl : String
  /-- How many files a page lists; at least one. -/
  pageSize : Nat
  deriving DecidableEq, Inhabited

/-- A site at an address, with pages of a size. -/
def Site.ofAddress (address : String) (pageSize : Nat) : Site :=
  ⟨Text.trimEndOf (· = '/') address, max pageSize 1⟩

/-- The address without its scheme. -/
def Site.host (site : Site) : String :=
  match site.baseUrl.splitOn "://" with
  | _ :: host :: _ => host
  | _ => site.baseUrl

structure State where
  projects : Table Project := ∅
  /-- The identifier that was given last. -/
  lastId : UInt64 := 0
  calls : List Call := []
  /-- The failures to come, by operation or by the log text of a call. -/
  failures : Table String := ∅
  /-- Whether the program has halted because a number did not fit in a word. -/
  halted : Bool := false
  deriving DecidableEq, Inhabited

namespace State

/-- The state with a call recorded. -/
def record (s : State) (call : Call) : State :=
  { s with calls := s.calls ++ [call] }

/-- The failure that awaits a call; one for the very call goes first. -/
def failureOf (s : State) (call : Call) : Option String :=
  (s.failures[call.logText]?).or s.failures[call.operation]?

/-- The state after a number was computed, which has to fit in a word. -/
def checkWord (n : Nat) (s : State) : State :=
  { s with halted := s.halted || Text.bound64 ≤ n }

/-- The state after an identifier was taken, which is then the last one. -/
def takeId (s : State) : State :=
  { s with lastId := s.lastId + 1 }.checkWord (s.lastId.toNat + 1)

/-- The state after a position among the files of a repository was computed. Without files none is
computed. -/
def checkPosition (path : String) (position : Nat) (s : State) : State :=
  s.checkWord (if (s.projects[path]?).any (!·.files.isEmpty) then position else 0)

def put (s : State) (path : String) (project : Project) : State :=
  { s with projects := s.projects.insert path project }

/-- How many calls of an operation were recorded. -/
def countCalls (s : State) (operation : String) : Nat :=
  s.calls.countP (·.operation = operation)

end State

/-- What a new repository looks like. -/
def newProject (site : Site) (id : UInt64) (path description : String) : Project where
  repository :=
    { id
      fullPath := path
      description
      defaultBranch := some "main"
      webUrl := site.baseUrl ++ "/" ++ path
      sshUrl := "git@" ++ site.host ++ ":" ++ path ++ ".git" }

/-- A call: it is recorded, and unless a failure awaits it, it is answered. -/
def answer {α : Type} (call : Call) (body : State → Except Failure α × State) : Act State α :=
  Act.ofFunction fun s =>
    match s.failureOf call with
    | some message => (.error (.provider message), s.record call)
    | none => body (s.record call)

def noProject (path : String) : Failure :=
  .notFound ("project " ++ path)

/-- Answers from one repository and puts back what becomes of it. -/
def onProject {α : Type} (path : String) (body : Project → Except Failure (α × Project))
    (s : State) : Except Failure α × State :=
  match s.projects[path]? with
  | none => (.error (noProject path), s)
  | some project =>
    match body project with
    | .error failure => (.error failure, s)
    | .ok (a, project) => (.ok a, s.put path project)

/-- Answers with a part of one repository. -/
def look {α : Type} (path : String) (part : Project → α) : State → Except Failure α × State :=
  onProject path fun project => .ok (part project, project)

/-- Changes one repository. -/
def change (path : String) (f : Project → Project) : State → Except Failure Unit × State :=
  onProject path fun project => .ok ((), f project)

/-! ## Calls -/

def createProject (site : Site) (space name description : String) (s : State) :
    Except Failure RemoteRepository × State :=
  let path := Descriptor.joinPath space name
  if path ∈ s.projects then (.error (.conflict "project" path), s)
  else
    let s := s.takeId
    let project := newProject site s.lastId path description
    (.ok project.repository, s.put path project)

def deleteProject (path : String) (s : State) : Except Failure Unit × State :=
  if path ∈ s.projects then (.ok (), { s with projects := s.projects.erase path })
  else (.error (noProject path), s)

def addDeployKey (path title : String) (key : DeployKey) (s : State) :
    Except Failure Unit × State :=
  let s := s.takeId
  change path (fun project =>
    { project with
      deployKeys := project.deployKeys ++
        [{ id := s.lastId, title, key := key.authorizedKey, canPush := key.writeAccess }] }) s

def deleteDeployKey (path : String) (id : UInt64) : State → Except Failure Unit × State :=
  onProject path fun project =>
    let kept := project.deployKeys.filter (·.id ≠ id)
    if kept.length = project.deployKeys.length then
      .error (.notFound ("deploy key " ++ toString id.toNat))
    else .ok ((), { project with deployKeys := kept })

/-- The number that a page cursor denotes; pages are counted from one. -/
def pageNumber (page : Option String) : Nat :=
  max 1 ((page.bind fun p => Text.readBelow Text.bound64 p.toList).getD 1)

/-- A page of the paths of all files, in order. -/
def treePage (pageSize : Nat) (page : Option String) (project : Project) :
    Except Failure TreePage :=
  if project.files.isEmpty then .error (.notFound "Tree Not Found")
  else
    let number := pageNumber page
    .ok {
      paths := (project.files.keys.drop ((number - 1) * pageSize)).take pageSize
      nextPage := if number * pageSize < project.files.size then some (toString (number + 1))
        else none }

/-- The end of the page is the last position that is computed for it. -/
def listTreePage (site : Site) (path : String) (page : Option String) (s : State) :
    Except Failure TreePage × State :=
  onProject path (fun project => (treePage site.pageSize page project).map (·, project))
    (s.checkPosition path (pageNumber page * site.pageSize))

/-- Why an action cannot be part of a commit after actions on the paths `seen`. -/
def actionFault (files : Table String) (seen : List String) (action : CommitAction) :
    Option Failure :=
  if seen.contains action.path then
    some (.provider ("duplicate commit action for " ++ action.path))
  else
    match action with
    | .create path _ =>
      if path ∈ files then
        some (.provider ("A file with this name already exists: " ++ path))
      else none
    | .delete path =>
      if path ∈ files then none
      else some (.provider ("A file with this name doesn't exist: " ++ path))

/-- Why a commit cannot be made: the fault of its first faulty action. -/
def commitFault (files : Table String) (seen : List String) : List CommitAction → Option Failure
  | [] => none
  | action :: rest =>
    (actionFault files seen action).or (commitFault files (action.path :: seen) rest)

def applyAction (files : Table String) : CommitAction → Table String
  | .create path content => files.insert path content
  | .delete path => files.erase path

def createCommit (path branch : String) (actions : List CommitAction) :
    State → Except Failure Unit × State :=
  onProject path fun project =>
    match commitFault project.files [] actions with
    | some failure => .error failure
    | none => .ok ((), { project with
        files := actions.foldl applyAction project.files
        commitBranches := project.commitBranches ++ [branch] })

def noVariable (key : String) : Failure :=
  .notFound ("variable " ++ key)

def updateVariable (path : String) (v : CiVariable) : State → Except Failure Unit × State :=
  onProject path fun project =>
    if v.key ∈ project.ciVariables then
      .ok ((), { project with ciVariables := project.ciVariables.insert v.key v })
    else .error (noVariable v.key)

def createVariable (path : String) (v : CiVariable) : State → Except Failure Unit × State :=
  onProject path fun project =>
    if v.key ∈ project.ciVariables then .error (.conflict "variable" v.key)
    else .ok ((), { project with ciVariables := project.ciVariables.insert v.key v })

def deleteVariable (path key : String) : State → Except Failure Unit × State :=
  onProject path fun project =>
    if key ∈ project.ciVariables then
      .ok ((), { project with ciVariables := project.ciVariables.erase key })
    else .error (noVariable key)

/-- The secret of the token with an identifier. -/
def secretOf (uid : UInt64) : String :=
  "memtok-" ++ toString uid.toNat

def createAccessToken (path : String) (request : NewAccessToken) (s : State) :
    Except Failure AccessTokenRecord × State :=
  let s := s.takeId
  let token : AccessTokenRecord :=
    { uid := s.lastId
      name := request.name
      active := true
      revoked := false
      expiresAt := request.expiresAt
      scopes := request.scopes
      token := some (secretOf s.lastId) }
  onProject path (fun project => .ok (token, { project with tokens := project.tokens ++ [token] })) s

/-- The forge in memory at a site. -/
def forge (site : Site) : Forge State where
  providerType := "memory"
  baseUrl := site.baseUrl
  pageBudget s := s.projects.toList.foldl (fun n (_, project) => n + project.files.size) 1
  getProject path := answer (.getProject path) fun s =>
    (.ok (s.projects[path]?.map (·.repository)), s)
  createProject space name description :=
    answer (.createProject space name description) (createProject site space name description)
  editDescription path description := answer (.editDescription path description) <|
    change path fun p => { p with repository := { p.repository with description } }
  deleteProject path := answer (.deleteProject path) (deleteProject path)
  archiveProject path := answer (.archiveProject path) <|
    change path fun p => { p with repository := { p.repository with archived := true } }
  listDeployKeys path := answer (.listDeployKeys path) (look path (·.deployKeys))
  addDeployKey path title key := answer (.addDeployKey path title key) (addDeployKey path title key)
  deleteDeployKey path id := answer (.deleteDeployKey path id) (deleteDeployKey path id)
  listTreePage path page := answer (.listTreePage path page) (listTreePage site path page)
  createCommit path branch message actions :=
    answer (.createCommit path branch message actions) (createCommit path branch actions)
  updateVariable path v := answer (.updateVariable path v) (updateVariable path v)
  createVariable path v := answer (.createVariable path v) (createVariable path v)
  deleteVariable path key := answer (.deleteVariable path key) (deleteVariable path key)
  listAccessTokens path := answer (.listAccessTokens path) <|
    look path fun p => p.tokens.map fun t => { t with token := none }
  createAccessToken path request :=
    answer (.createAccessToken path request) (createAccessToken path request)

/-! ## Arranging a state -/

namespace State

/-- A new repository in place of any at its path. -/
def seedProject (site : Site) (path : String) (s : State) : State :=
  let s := s.takeId
  s.put path (newProject site s.lastId path "")

/-- Changes a repository, if it is there. -/
def modifyProject (path : String) (f : Project → Project) (s : State) : State :=
  match s.projects[path]? with
  | none => s
  | some project => s.put path (f project)

def seedFile (path file content : String) (s : State) : State :=
  s.modifyProject path fun p => { p with files := p.files.insert file content }

def seedDeployKey (path title key : String) (canPush : Bool) (s : State) : State :=
  let s := s.takeId
  s.modifyProject path fun p =>
    { p with deployKeys := p.deployKeys ++ [{ id := s.lastId, title, key, canPush }] }

def seedVariable (path : String) (v : CiVariable) (s : State) : State :=
  s.modifyProject path fun p => { p with ciVariables := p.ciVariables.insert v.key v }

/-- Adds a token; later identifiers are greater than its own. -/
def seedToken (path : String) (token : AccessTokenRecord) (s : State) : State :=
  { s with lastId := max s.lastId token.uid }.modifyProject path fun p =>
    { p with tokens := p.tokens ++ [token] }

/-- Makes the calls that `pattern` names fail. -/
def failOn (pattern message : String) (s : State) : State :=
  { s with failures := s.failures.insert pattern message }

def clearFailures (s : State) : State :=
  { s with failures := ∅ }

def clearCalls (s : State) : State :=
  { s with calls := [] }

end State

/-! ## Small laws -/

theorem calls_answer {α : Type} (call : Call) (body : State → Except Failure α × State)
    (hbody : ∀ s, (body s).2.calls = s.calls) (s : State) :
    ((answer call body).runFrom s).2.calls = s.calls ++ [call] := by
  simp only [answer, Act.runFrom_ofFunction]
  split
  · rfl
  · rw [hbody]
    rfl

theorem calls_onProject {α : Type} (path : String)
    (body : Project → Except Failure (α × Project)) (s : State) :
    (onProject path body s).2.calls = s.calls := by
  unfold onProject
  split
  · rfl
  · split <;> rfl

end ForgeSync.Forge.Memory
