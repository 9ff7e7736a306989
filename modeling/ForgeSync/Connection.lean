import ForgeSync.Datum
import ForgeSync.Failure
import ForgeSync.Text.Blank
import ForgeSync.Text.Quoted

/-!
# Connection secrets

Endpoint and credential of one forge, and the host keys that its clients shall trust. Showing a
connection never shows the credential.
-/

namespace ForgeSync

structure Connection where
  endpoint : String
  token : String
  hostKeys : Option String
  deriving DecidableEq, Repr, Inhabited

namespace Connection

/-- A field that must hold more than blanks, without the blanks at its ends. -/
def requiredField (secret : String) (data : Table String) (key : String) :
    Except Failure String :=
  match (data[key]?.map Text.trim).filter (!·.isEmpty) with
  | some value => .ok value
  | none =>
    .error (.configuration
      ("connection secret '" ++ secret ++ "' is missing required field '" ++ key ++ "'"))

/-- The connection that a secret describes. -/
def ofData (secret : String) (data : Table String) : Except Failure Connection := do
  let endpoint ← requiredField secret data "endpoint"
  let token ← requiredField secret data "token"
  return {
    endpoint := Text.trimEndOf (· = '/') endpoint
    token
    hostKeys := data["hostKeys"]?.filter fun keys => !Text.isBlankText keys }

/-- A connection as a message shows it. -/
def shown (c : Connection) : String :=
  "ConnectionSecret \x7b endpoint: " ++ Text.quoted c.endpoint ++
    ", token: \"<redacted>\", host_keys: " ++
    (if c.hostKeys.isSome then "Some(\"<set>\")" else "None") ++ " \x7d"

end Connection

end ForgeSync
