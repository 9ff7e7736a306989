import ForgeSync.Url.Host

/-!
# Addresses of resources

An absolute address in parts: a scheme, perhaps an authority (user, host, port), a path, perhaps
a query and a fragment. The path of an address with a hierarchy is kept as it is written, from
its first slash on; the path of any other address is one text that nobody takes apart.
-/

namespace ForgeSync

/-- Who serves a resource. -/
structure Authority where
  username : String := ""
  password : String := ""
  /-- The host as it is written; it may be empty outside the web. -/
  host : String
  /-- The port, where it is not the usual one of the scheme. -/
  port : Option Nat := none
  deriving DecidableEq, Repr, Inhabited

structure Url where
  scheme : String
  authority : Option Authority := none
  path : String := ""
  /-- Whether the path is a hierarchy of segments. -/
  isHierarchical : Bool := true
  query : Option String := none
  fragment : Option String := none
  deriving DecidableEq, Repr, Inhabited

namespace Url

/-- The schemes of the web, in which a host is wanted and a backslash is a slash. -/
def webSchemes : List String := ["http", "https", "ws", "wss", "ftp"]

/-- Whether a scheme follows the rules of the web or of local files. -/
def isSpecialScheme (scheme : String) : Bool :=
  webSchemes.contains scheme || scheme = "file"

/-- The port that a scheme means when none is written. -/
def usualPort? (scheme : String) : Option Nat :=
  if scheme = "http" ∨ scheme = "ws" then some 80
  else if scheme = "https" ∨ scheme = "wss" then some 443
  else if scheme = "ftp" then some 21
  else none

/-- The host, where there is one that is not empty. -/
def host? (u : Url) : Option String :=
  (u.authority.map (·.host)).filter (!·.isEmpty)

/-- User and password as they stand in front of a host. -/
def userText (a : Authority) : String :=
  if a.username.isEmpty ∧ a.password.isEmpty then ""
  else a.username ++ (if a.password.isEmpty then "" else ":" ++ a.password) ++ "@"

/-- Host and port. -/
def hostText (a : Authority) : String :=
  a.host ++ (match a.port with
    | some port => ":" ++ toString port
    | none => "")

/-- What stands between the scheme and the path. A path that begins with two slashes is kept
apart from them where there is no authority. -/
def authorityText (u : Url) : String :=
  match u.authority with
  | some a => "//" ++ userText a ++ hostText a
  | none => if u.isHierarchical && u.path.startsWith "//" then "/." else ""

/-- What stands behind the path. -/
def suffixText (u : Url) : String :=
  (match u.query with
    | some q => "?" ++ q
    | none => "") ++
  (match u.fragment with
    | some f => "#" ++ f
    | none => "")

/-- An address as text. -/
def text (u : Url) : String :=
  u.scheme ++ ":" ++ u.authorityText ++ u.path ++ u.suffixText

/-- An address without user and password, as a message shows it. -/
def withoutUser (u : Url) : Url :=
  { u with authority := u.authority.map fun a => { a with username := "", password := "" } }

end Url

end ForgeSync
