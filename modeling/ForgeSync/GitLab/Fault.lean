import ForgeSync.Failure
import ForgeSync.Http.Transport

/-!
# What GitLab refuses

Every response that is no success is classified by its status, and in one case by its body. Some
of the classes pass: the same request may succeed a little later.

Main statement: `ofStatus_isTransient_iff` lists the statuses that lead to a passing fault.
-/

namespace ForgeSync.GitLab

inductive Fault where
  | notFound (detail : String)
  | conflict (detail : String)
  | unauthorized (status : Nat) (detail : String)
  /-- Too many requests; the server may say for how many seconds to wait. -/
  | rateLimited (retryAfter : Option Nat)
  | server (status : Nat) (detail : String)
  | rejected (status : Nat) (detail : String)
  | network (fault : Http.NetworkFault)
  /-- A response that is not what was asked for. -/
  | malformed (detail : String)
  | invalidEndpoint (detail : String)
  deriving DecidableEq, Inhabited

namespace Fault

/-- The name of the class. -/
def name : Fault → String
  | notFound _ => "NotFound"
  | conflict _ => "Conflict"
  | unauthorized _ _ => "Unauthorized"
  | rateLimited _ => "RateLimited"
  | server _ _ => "Server"
  | rejected _ _ => "Api"
  | network _ => "Network"
  | malformed _ => "Decode"
  | invalidEndpoint _ => "InvalidUrl"

def message : Fault → String
  | notFound detail => "Not found: " ++ detail
  | conflict detail => "Conflict: " ++ detail
  | unauthorized status detail =>
    "Authentication failed (" ++ Http.statusText status ++ "): " ++ detail
  | rateLimited _ => "Rate limit exceeded"
  | server status detail => "Server error (" ++ Http.statusText status ++ "): " ++ detail
  | rejected status detail => "Request rejected (" ++ Http.statusText status ++ "): " ++ detail
  | network fault => "Network error: " ++ fault.message
  | malformed detail => "Invalid response: " ++ detail
  | invalidEndpoint detail => "Invalid endpoint: " ++ detail

/-- How GitLab says that the path of a new project is in use. -/
def takenText : String := "has already been taken"

/-- The class of a response that is no success. -/
def ofStatus (status : Nat) (detail : String) (retryAfter : Option Nat) : Fault :=
  if status = 404 then notFound detail
  else if status = 409 then conflict detail
  else if status = 400 ∧ (detail.contains takenText) then conflict detail
  else if status = 401 ∨ status = 403 then unauthorized status detail
  else if status = 429 then rateLimited retryAfter
  else if 500 ≤ status ∧ status < 600 then server status detail
  else rejected status detail

/-- Whether the same request may succeed later. -/
def isTransient : Fault → Bool
  | rateLimited _ => true
  | server _ _ => true
  | network _ => true
  | _ => false

def retryAfter? : Fault → Option Nat
  | rateLimited retryAfter => retryAfter
  | _ => none

/-- The fault as a failure of a forge. -/
def toFailure : Fault → Failure
  | notFound detail => .notFound detail
  | conflict detail => .conflict "gitlab resource" detail
  | invalidEndpoint detail => .configuration detail
  | fault => .provider fault.message

def encode (f : Fault) : Datum :=
  .map [("error", .text f.name), ("message", .text f.message),
    ("transient", .bool f.isTransient), ("retry_after", Datum.ofOption .ofNat f.retryAfter?),
    ("domain", f.toFailure.encode)]

theorem ofStatus_isTransient_iff (status : Nat) (detail : String) (retryAfter : Option Nat) :
    (ofStatus status detail retryAfter).isTransient = true ↔
      status = 429 ∨ (500 ≤ status ∧ status < 600) := by
  unfold ofStatus
  repeat' split
  all_goals simp only [isTransient, Bool.false_eq_true, false_iff, true_iff]
  all_goals omega

end Fault

end ForgeSync.GitLab
