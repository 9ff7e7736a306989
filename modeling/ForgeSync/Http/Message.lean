import ForgeSync.Datum
import ForgeSync.Url.Basic

/-!
# Requests and responses

What a client sends and what comes back: a method, an address, a credential and perhaps a body;
a status, headers and bytes.
-/

namespace ForgeSync.Http

/-- What a request asks to be done, by its name; a server may know other methods than the four
that are in use here. -/
structure Method where
  name : String
  deriving DecidableEq, Repr, Inhabited

namespace Method

def get : Method := ⟨"GET"⟩

def post : Method := ⟨"POST"⟩

def put : Method := ⟨"PUT"⟩

def delete : Method := ⟨"DELETE"⟩

end Method

structure Request where
  method : Method
  url : Url
  /-- The credential, sent in a header of its own. -/
  token : String
  body : Option Datum := none
  deriving Inhabited

structure Response where
  status : Nat
  headers : List (String × String) := []
  body : List UInt8 := []
  deriving Inhabited

namespace Response

/-- Whether the request was accepted. -/
def isSuccess (r : Response) : Bool :=
  200 ≤ r.status && r.status < 300

/-- The text of the first header of a name, whatever the case of the name; a header with other
characters than the visible ones of ASCII has no text. -/
def header? (r : Response) (name : String) : Option String :=
  let isText (value : String) : Bool :=
    value.toList.all fun c => c = '\t' || (0x20 ≤ c.toNat && c.toNat < 0x7F)
  match r.headers.find? fun (key, _) => key.map Char.toLower = name with
  | some (_, value) => if isText value then some value else none
  | none => none

end Response

/-- The usual wording of a status. -/
def reason? (status : Nat) : Option String :=
  match status with
  | 100 => "Continue"
  | 101 => "Switching Protocols"
  | 102 => "Processing"
  | 103 => "Early Hints"
  | 200 => "OK"
  | 201 => "Created"
  | 202 => "Accepted"
  | 203 => "Non Authoritative Information"
  | 204 => "No Content"
  | 205 => "Reset Content"
  | 206 => "Partial Content"
  | 207 => "Multi-Status"
  | 208 => "Already Reported"
  | 226 => "IM Used"
  | 300 => "Multiple Choices"
  | 301 => "Moved Permanently"
  | 302 => "Found"
  | 303 => "See Other"
  | 304 => "Not Modified"
  | 305 => "Use Proxy"
  | 307 => "Temporary Redirect"
  | 308 => "Permanent Redirect"
  | 400 => "Bad Request"
  | 401 => "Unauthorized"
  | 402 => "Payment Required"
  | 403 => "Forbidden"
  | 404 => "Not Found"
  | 405 => "Method Not Allowed"
  | 406 => "Not Acceptable"
  | 407 => "Proxy Authentication Required"
  | 408 => "Request Timeout"
  | 409 => "Conflict"
  | 410 => "Gone"
  | 411 => "Length Required"
  | 412 => "Precondition Failed"
  | 413 => "Payload Too Large"
  | 414 => "URI Too Long"
  | 415 => "Unsupported Media Type"
  | 416 => "Range Not Satisfiable"
  | 417 => "Expectation Failed"
  | 418 => "I'm a teapot"
  | 421 => "Misdirected Request"
  | 422 => "Unprocessable Entity"
  | 423 => "Locked"
  | 424 => "Failed Dependency"
  | 425 => "Too Early"
  | 426 => "Upgrade Required"
  | 428 => "Precondition Required"
  | 429 => "Too Many Requests"
  | 431 => "Request Header Fields Too Large"
  | 451 => "Unavailable For Legal Reasons"
  | 500 => "Internal Server Error"
  | 501 => "Not Implemented"
  | 502 => "Bad Gateway"
  | 503 => "Service Unavailable"
  | 504 => "Gateway Timeout"
  | 505 => "HTTP Version Not Supported"
  | 506 => "Variant Also Negotiates"
  | 507 => "Insufficient Storage"
  | 508 => "Loop Detected"
  | 510 => "Not Extended"
  | 511 => "Network Authentication Required"
  | _ => none

/-- A status with its wording. -/
def statusText (status : Nat) : String :=
  toString status ++ " " ++ (reason? status).getD "<unknown status code>"

/-- Whether a number is the number of a status. -/
def isStatus (n : Nat) : Bool :=
  100 ≤ n && n ≤ 999

end ForgeSync.Http
