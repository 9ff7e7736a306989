import ForgeSync.GitLab.Fault
import ForgeSync.Json.Reader
import ForgeSync.Settings.Basic
import ForgeSync.Text.Blank
import ForgeSync.Text.Quoted
import ForgeSync.Url.Reader

/-!
# Calling GitLab

A client knows the address of one GitLab and a credential. A request that meets a passing fault is
sent again, so many times at most as the settings allow; a request that creates something may have
been carried out though no answer came, so it is sent again only when the server says that it came
too early.

Listings come in pages of a hundred; the answer to one page names the next in a header.

Main statements: `sendAgain_of_ok` and `sendAgain_of_final` say when a request is not sent again.
-/

namespace ForgeSync.GitLab

/-- A call over a state `τ` that may meet a fault. -/
abbrev Exchange (τ α : Type) := ExceptT Fault (StateM τ) α

/-- The outcome of a call as a value. -/
def Exchange.attempt {τ α : Type} (call : Exchange τ α) : Exchange τ (Except Fault α) :=
  ExceptT.mk do
    let outcome ← ExceptT.run call
    return .ok outcome

structure Client where
  /-- The root of the instance, without a slash at its end. -/
  endpoint : String
  /-- The root of its interface. -/
  base : Url
  token : String
  settings : ClientSettings
  deriving Inhabited

namespace Client

/-- A client for an instance. -/
def connect (endpoint token : String) (settings : ClientSettings) : Except Fault Client :=
  let endpoint := Text.trimEndOf (· = '/') endpoint
  match Url.read (endpoint ++ "/api/v4") with
  | .error fault => .error (.invalidEndpoint (endpoint ++ ": " ++ fault.message))
  | .ok base =>
    if base.isHierarchical then .ok { endpoint, base, token, settings }
    else .error (.invalidEndpoint endpoint)

/-- A client as a message shows it; the credential is not shown. -/
def shown (c : Client) : String :=
  "GitLabClient \x7b endpoint: " ++ Text.quoted c.endpoint ++ ", token: \"<redacted>\", .. \x7d"

/-- The address of a resource of the interface. -/
def url (c : Client) (segments : List String) : Url :=
  c.base.addSegments segments

section Requests

variable {τ : Type} (transport : Http.Transport τ) (c : Client)

def request (method : Http.Method) (url : Url) (body : Option Datum) : Http.Request :=
  { method, url, token := c.token, body }

/-- For how many seconds a server asks to wait. -/
def retryAfterOf (r : Http.Response) : Option Nat :=
  (r.header? "retry-after").bind fun value =>
    Text.readBelow Text.bound64 (Text.trim value).toList

/-- The fault that a response stands for, if it is no success. -/
def classify (request : Http.Request) (r : Http.Response) : Except Fault Http.Response :=
  if r.isSuccess then .ok r
  else
    .error (Fault.ofStatus r.status
      (request.method.name ++ " " ++ request.url.path ++ ": " ++ Text.ofUtf8 r.body)
      (retryAfterOf r))

/-- What one exchange leads to. -/
def verdict (request : Http.Request) :
    Except Http.NetworkFault Http.Response → Except Fault Http.Response
  | .error fault => .error (.network fault)
  | .ok r => classify request r

/-- Sends a request once. -/
def sendOnce (request : Http.Request) : Exchange τ Http.Response :=
  ExceptT.mk do
    let outcome ← transport.send request
    return verdict request outcome

/-- Whether a request that met a fault may be sent again. -/
def isRetryable (method : Http.Method) (fault : Fault) : Bool :=
  if method = .post then
    match fault with
    | .rateLimited _ => true
    | _ => false
  else fault.isTransient

/-- Sends a request, and so many times again as it has to and may. -/
def sendAgain (request : Http.Request) : Nat → Exchange τ Http.Response
  | 0 => sendOnce transport request
  | retries + 1 => do
    match ← (sendOnce transport request).attempt with
    | .ok r => return r
    | .error fault =>
      if isRetryable request.method fault then sendAgain request retries else throw fault

def send (method : Http.Method) (url : Url) (body : Option Datum) : Exchange τ Http.Response :=
  sendAgain transport (c.request method url body) c.settings.maxRetries

/-- The value that the body of a response holds. -/
def decodeBody {α : Type} (decode : Datum → Option α) (r : Http.Response) : Except Fault α :=
  match (String.fromUTF8? ⟨r.body.toArray⟩).bind Json.read? with
  | none => .error (.malformed "no JSON text")
  | some d =>
    match decode d with
    | none => .error (.malformed "unexpected value")
    | some a => .ok a

/-- Gets a value. -/
def get {α : Type} (decode : Datum → Option α) (url : Url) : Exchange τ α := do
  let r ← c.send transport .get url none
  ExceptT.mk (pure (decodeBody decode r))

/-- Gets a value that may be absent. -/
def getOptional {α : Type} (decode : Datum → Option α) (url : Url) : Exchange τ (Option α) := do
  match ← (c.get transport decode url).attempt with
  | .ok a => return some a
  | .error (.notFound _) => return none
  | .error fault => throw fault

/-- A page of a listing. -/
structure Page (α : Type) where
  items : List α
  nextPage : Option String

def pageSize : String := "100"

/-- The page that follows a response, if it names one. -/
def nextPageOf (r : Http.Response) : Option String :=
  ((r.header? "x-next-page").map Text.trim).filter (!·.isEmpty)

/-- Gets one page of a listing; the first one where none is named. -/
def getPage {α : Type} (decode : Datum → Option α) (url : Url) (page : Option String) :
    Exchange τ (Page α) := do
  let url := (url.addQueryField "per_page" pageSize).addQueryField "page" (page.getD "1")
  let r ← c.send transport .get url none
  let items ← ExceptT.mk (pure (decodeBody (Datum.listOf? decode) r))
  return ⟨items, nextPageOf r⟩

/-- What follows a page: nothing where it names no other page than itself. -/
def following {α : Type} (page : Option String) (answer : Page α) : Option String :=
  answer.nextPage.filter fun next => page ≠ some next

/-- Gets the pages of a listing from one page on, within a budget of pages. There is no value
when the budget is used up. -/
def getPages {α : Type} (decode : Datum → Option α) (url : Url) :
    Nat → Option String → Exchange τ (Option (List α))
  | 0, _ => return none
  | budget + 1, page => do
    let answer ← c.getPage transport decode url page
    match following page answer with
    | none => return some answer.items
    | some next => return (← getPages decode url budget (some next)).map (answer.items ++ ·)

/-- Sends a body, and reads the answer. -/
def post {α : Type} (decode : Datum → Option α) (url : Url) (body : Datum) : Exchange τ α := do
  let r ← c.send transport .post url (some body)
  ExceptT.mk (pure (decodeBody decode r))

/-- Sends a request whose answer does not matter. -/
def perform (method : Http.Method) (url : Url) (body : Option Datum) : Exchange τ Unit := do
  let _ ← c.send transport method url body
  return ()

theorem sendAgain_of_ok {request : Http.Request} {s after : τ} {r : Http.Response}
    (h : (sendOnce transport request).run s = (.ok r, after)) (retries : Nat) :
    (sendAgain transport request retries).run s = (.ok r, after) := by
  cases retries with
  | zero => exact h
  | succ n =>
    simp only [ExceptT.run] at h
    simp only [sendAgain, Exchange.attempt, ExceptT.run, ExceptT.mk, bind, ExceptT.bind,
      ExceptT.bindCont, StateT.bind, h]
    rfl

theorem sendAgain_of_final {request : Http.Request} {s after : τ} {fault : Fault}
    (h : (sendOnce transport request).run s = (.error fault, after))
    (hfinal : isRetryable request.method fault = false) (retries : Nat) :
    (sendAgain transport request retries).run s = (.error fault, after) := by
  cases retries with
  | zero => exact h
  | succ n =>
    simp only [ExceptT.run] at h
    simp only [sendAgain, Exchange.attempt, ExceptT.run, ExceptT.mk, bind, ExceptT.bind,
      ExceptT.bindCont, StateT.bind, h]
    show (if isRetryable request.method fault = true then sendAgain transport request n
      else throw fault : Exchange τ Http.Response) after = (.error fault, after)
    rw [hfinal]
    rfl

end Requests

end Client

end ForgeSync.GitLab
