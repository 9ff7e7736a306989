import ForgeSync.Url.Basic

/-!
# Paths in segments

A path is the sequence of its segments, each behind a slash. The segments `.` and `..` never
stand in a path: the first is left out, the second takes the segment before it away. Segments and
query fields are also added to an address that exists; a segment that is added is encoded on its
own, so it stays one segment whatever it holds.

Main statement: a segment without tabs and line breaks that is neither `.` nor `..` adds its
encoded form, and nothing else, to a path.
-/

namespace ForgeSync.Url

/-- Tabs and line breaks, which addresses skip. -/
def isSkipped (c : Char) : Bool :=
  c = '\t' || c = '\n' || c = '\r'

/-- A dot, plain or encoded, at the front of a segment. -/
def dropDot : List Char → Option (List Char)
  | '.' :: rest => some rest
  | '%' :: '2' :: 'e' :: rest => some rest
  | '%' :: '2' :: 'E' :: rest => some rest
  | _ => none

/-- Whether a segment means the place where it stands. -/
def isSingleDot (segment : List Char) : Bool :=
  dropDot segment = some []

/-- Whether a segment means the place above. -/
def isDoubleDot (segment : List Char) : Bool :=
  dropDot segment >>= dropDot = some []

/-- A drive of a local file system: a letter and a colon. -/
def isDrive : List Char → Bool
  | [letter, ':'] => letter.isAlpha
  | _ => false

/-- A drive whose colon may be written as a bar. -/
def isDriveLike : List Char → Bool
  | [letter, colon] => letter.isAlpha && (colon = ':' || colon = '|')
  | _ => false

/-- The segments, in reverse, without the last one; a sole drive stays. -/
def withoutLast (ofFile : Bool) : List (List Char) → List (List Char)
  | [segment] => if ofFile && isDrive segment then [segment] else []
  | _ :: rest => rest
  | [] => []

/-- Adds a segment, encoded already, behind segments in reverse. What `.` and `..` leave behind
at the end of a path is an empty segment. -/
def addSegment (ofFile isLast : Bool) (done : List (List Char)) (segment : List Char) :
    List (List Char) :=
  if isDoubleDot segment then
    let shorter := withoutLast ofFile done
    if isLast then [] :: shorter else shorter
  else if isSingleDot segment then
    if isLast then [] :: done else done
  else if ofFile && done.isEmpty && isDriveLike segment then (segment.take 1 ++ [':']) :: done
  else segment :: done

/-- The path that segments make up. -/
def pathOfSegments (ofFile : Bool) (segments : List (List Char)) : List (List Char) :=
  let rec go (done : List (List Char)) : List (List Char) → List (List Char)
    | [] => done.reverse
    | [segment] => (addSegment ofFile true done segment).reverse
    | segment :: rest => go (addSegment ofFile false done segment) rest
  go [] segments

/-- Segments as text, each behind a slash. -/
def segmentsText (segments : List (List Char)) : String :=
  String.ofList (segments.flatMap ('/' :: ·))

/-! ## Adding to an address -/

/-- The last slash of a path and what stands behind it. -/
def dropLastSegment (path : List Char) : List Char :=
  (path.reverse.dropWhile (· ≠ '/')).reverse

/-- A path without a slash at its end, unless it is the root. -/
def withoutLastSlash (path : String) : String :=
  if 1 < path.length && path.endsWith "/" then (path.dropEnd 1).toString else path

/-- What becomes of a path when a segment is added. A segment that turns out to be `..` takes
one away, and one that turns out to be `.` leaves a slash. -/
def pushToPath (special : Bool) (path segment : String) : String :=
  if segment = "." ∨ segment = ".." then path
  else
    let before := if path = "/" then path else path ++ "/"
    let plain := segment.toList.filter fun c => !isSkipped c
    let encoded := encodeChars (segmentReserved special) plain
    if isDoubleDot encoded then
      let above := String.ofList (dropLastSegment (withoutLastSlash before).toList)
      if above.isEmpty then "/" else above
    else if isSingleDot encoded then before
    else before ++ String.ofList encoded

/-- An address with segments added to its path. -/
def addSegments (u : Url) (segments : List String) : Url :=
  { u with
    path := segments.foldl (pushToPath (isSpecialScheme u.scheme)) (withoutLastSlash u.path) }

/-- An address with a field added to its query. -/
def addQueryField (u : Url) (name value : String) : Url :=
  let field := formText name ++ "=" ++ formText value
  { u with
    query := some (match u.query with
      | none => field
      | some q => if q.isEmpty then field else q ++ "&" ++ field) }

end ForgeSync.Url
