import ForgeSync.Text.Blank
import ForgeSync.Url.Segments

/-!
# Reading addresses

An absolute address is read from its scheme on: authority, path, query, fragment. Controls and
blanks at its ends do not belong to it, and tabs and line breaks anywhere are skipped.
-/

namespace ForgeSync.Url

/-- The scheme in lower case, and what stands behind its colon. -/
def takeScheme? (cs : List Char) : Option (String × List Char) :=
  match cs with
  | [] => none
  | first :: _ =>
    let isSchemeChar (c : Char) : Bool := c.isAlphanum || c = '+' || c = '-' || c = '.'
    let scheme := cs.takeWhile isSchemeChar
    match cs.dropWhile isSchemeChar with
    | ':' :: rest =>
      if first.isAlpha then some (String.ofList (scheme.map Char.toLower), rest) else none
    | _ => none

/-- Whether a character parts segments. -/
def isSlash (special : Bool) (c : Char) : Bool :=
  c = '/' || (special && c = '\\')

/-- Whether a character ends a path. -/
def endsPath (c : Char) : Bool :=
  c = '?' || c = '#'

/-! ## Authority -/

/-- User and password, encoded. -/
def readUser (cs : List Char) : String × String :=
  let encoded (part : List Char) : String := String.ofList (encodeChars userReserved part)
  (encoded (cs.takeWhile (· ≠ ':')), encoded ((cs.dropWhile (· ≠ ':')).drop 1))

/-- The text before the last at sign, and what stands behind it. -/
def splitUser (cs : List Char) : Option (List Char × List Char) :=
  let host := (cs.reverse.takeWhile (· ≠ '@')).reverse
  if cs.contains '@' then some (cs.take (cs.length - host.length - 1), host) else none

/-- The host ends at a colon outside brackets. -/
def takeHost : Bool → List Char → List Char × List Char
  | _, [] => ([], [])
  | inBrackets, c :: rest =>
    if c = ':' && !inBrackets then ([], c :: rest)
    else
      let inBrackets := if c = '[' then true else if c = ']' then false else inBrackets
      let (host, after) := takeHost inBrackets rest
      (c :: host, after)

/-- The port behind a colon, if there is a colon; a port without digits is the usual one. -/
def readPort (scheme : String) (cs : List Char) : Except Fault (Option Nat) :=
  match cs with
  | ':' :: digits =>
    if digits.isEmpty then .ok none
    else
      match Text.natOfDigits? digits with
      | none => .error .invalidPort
      | some n =>
        if 65535 < n then .error .invalidPort
        else .ok (if usualPort? scheme = some n then none else some n)
  | _ => .ok none

/-- What stands between two slashes and the path. -/
def readAuthority (scheme : String) (cs : List Char) : Except Fault Authority := do
  let special := isSpecialScheme scheme
  let (username, password, rest, hasUser) := match splitUser cs with
    | none => ("", "", cs, false)
    | some (user, rest) =>
      let (username, password) := readUser user
      (username, password, rest, true)
  if hasUser && rest.isEmpty then throw .emptyHost
  let (hostChars, portChars) := takeHost false rest
  if special && hostChars.isEmpty then throw .emptyHost
  let host ← if special then readWebHost hostChars else readPlainHost hostChars
  if host.isEmpty && !portChars.isEmpty then throw .emptyHost
  if host.isEmpty && !(username.isEmpty && password.isEmpty) then throw .emptyHost
  return { username, password, host, port := ← readPort scheme portChars }

/-! ## Path, query and fragment -/

/-- The path that begins at a text, as its encoded segments make it up. -/
def readPath (special ofFile : Bool) (cs : List Char) : String :=
  let segments := match cs with
    | [] => []
    | c :: rest => if isSlash special c then splitAtAll (isSlash special) rest
      else splitAtAll (isSlash special) cs
  let segments := if special && segments.isEmpty then [[]] else segments
  segmentsText (pathOfSegments ofFile (segments.map (encodeChars pathReserved)))

/-- The query and the fragment that a text ends with. -/
def readSuffix (special : Bool) (cs : List Char) : Option String × Option String :=
  let encoded (reserved cs : List Char) : String := String.ofList (encodeChars reserved cs)
  let fragmentOf (cs : List Char) : Option String :=
    match cs with
    | '#' :: rest => some (encoded fragmentReserved rest)
    | _ => none
  match cs with
  | '?' :: rest =>
    let reserved := if special then '\'' :: queryReserved else queryReserved
    (some (encoded reserved (rest.takeWhile (· ≠ '#'))), fragmentOf (rest.dropWhile (· ≠ '#')))
  | _ => (none, fragmentOf cs)

/-- An address whose scheme and authority are known. -/
def ofParts (scheme : String) (authority : Option Authority) (cs : List Char) : Url :=
  let special := isSpecialScheme scheme
  let (query, fragment) := readSuffix special (cs.dropWhile fun c => !endsPath c)
  { scheme
    authority
    path := readPath special (scheme = "file") (cs.takeWhile fun c => !endsPath c)
    query
    fragment }

/-- An address with an authority, from behind its two slashes on. -/
def readAfterSlashes (scheme : String) (cs : List Char) : Except Fault Url := do
  let special := isSpecialScheme scheme
  let ends (c : Char) : Bool := isSlash special c || endsPath c
  let authority ← readAuthority scheme (cs.takeWhile fun c => !ends c)
  return ofParts scheme (some authority) (cs.dropWhile fun c => !ends c)

/-- The address of a local file. A drive in the place of the host belongs to the path, and the
local host is not named. -/
def readFile (cs : List Char) : Except Fault Url := do
  let ends (c : Char) : Bool := isSlash true c || endsPath c
  match cs with
  | a :: b :: rest =>
    if isSlash true a && isSlash true b then
      let hostChars := rest.takeWhile fun c => !ends c
      if hostChars.isEmpty then return ofParts "file" (some { host := "" }) rest
      else if isDriveLike hostChars then
        return ofParts "file" (some { host := "" }) ('/' :: rest)
      else
        let host ← readWebHost hostChars
        let host := if host = "localhost" then "" else host
        return ofParts "file" (some { host }) (rest.dropWhile fun c => !ends c)
    else return ofParts "file" (some { host := "" }) cs
  | _ => return ofParts "file" (some { host := "" }) cs

/-- An address whose path is one text. -/
def readFlat (scheme : String) (cs : List Char) : Url :=
  let (query, fragment) := readSuffix false (cs.dropWhile fun c => !endsPath c)
  { scheme
    path := String.ofList (encodeChars [] (cs.takeWhile fun c => !endsPath c))
    isHierarchical := false
    query
    fragment }

/-- The address that a text denotes. -/
def read (s : String) : Except Fault Url :=
  let isEdge (c : Char) : Bool := c.toNat ≤ 0x20
  let cs := (Text.trimOf isEdge s).toList.filter fun c => !isSkipped c
  match takeScheme? cs with
  | none => .error .relative
  | some (scheme, rest) =>
    if scheme = "file" then readFile rest
    else if isSpecialScheme scheme then readAfterSlashes scheme (rest.dropWhile (isSlash true))
    else
      match rest with
      | '/' :: '/' :: rest => readAfterSlashes scheme rest
      | '/' :: _ => .ok (ofParts scheme none rest)
      | _ => .ok (readFlat scheme rest)

end ForgeSync.Url
