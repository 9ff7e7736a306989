import ForgeSync.Json.Token

/-!
# Reading JSON text

The tokens of a text are folded into a value by a machine whose stack holds the lists and maps
that are still open.
-/

namespace ForgeSync.Json

/-- A list or map that is still open, with what it holds so far in reverse. -/
inductive Frame where
  | items (done : List Datum)
  | members (done : List (String × Datum)) (key : String)

/-- What the machine waits for. -/
inductive Wait where
  | value
  | itemOrEnd
  | keyOrEnd (done : List (String × Datum))
  | key (done : List (String × Datum))
  | colon (done : List (String × Datum)) (key : String)
  | commaOrEnd
  | nothing (value : Datum)

structure Build where
  wait : Wait := .value
  frames : List Frame := []

namespace Build

/-- A value is complete: it goes into the innermost open frame. -/
def complete (frames : List Frame) (value : Datum) : Build :=
  match frames with
  | [] => ⟨.nothing value, []⟩
  | .items done :: outer => ⟨.commaOrEnd, .items (value :: done) :: outer⟩
  | .members done key :: outer => ⟨.commaOrEnd, .members ((key, value) :: done) key :: outer⟩

/-- A token where a value may start. -/
def start (frames : List Frame) : Token → Option Build
  | .scalar value => some (complete frames value)
  | .text value => some (complete frames (.text value))
  | .openList => some ⟨.itemOrEnd, .items [] :: frames⟩
  | .openMap => some ⟨.keyOrEnd [], frames⟩
  | _ => none

def step (b : Build) (token : Token) : Option Build :=
  match b.wait, token with
  | .value, t => start b.frames t
  | .itemOrEnd, .closeList => some (complete b.frames.tail (.list []))
  | .itemOrEnd, t => start b.frames t
  | .keyOrEnd done, .closeMap => some (complete b.frames (.map done.reverse))
  | .keyOrEnd done, .text key => some { b with wait := .colon done key }
  | .key done, .text key => some { b with wait := .colon done key }
  | .colon done key, .colon => some ⟨.value, .members done key :: b.frames⟩
  | .commaOrEnd, .comma =>
    match b.frames with
    | .items _ :: _ => some { b with wait := .value }
    | .members done _ :: outer => some ⟨.key done, outer⟩
    | [] => none
  | .commaOrEnd, .closeList =>
    match b.frames with
    | .items done :: outer => some (complete outer (.list done.reverse))
    | _ => none
  | .commaOrEnd, .closeMap =>
    match b.frames with
    | .members done _ :: outer => some (complete outer (.map done.reverse))
    | _ => none
  | _, _ => none

end Build

/-- The value of a token sequence. -/
def ofTokens? (tokens : List Token) : Option Datum := do
  let last ← tokens.foldlM Build.step {}
  match last.wait with
  | .nothing value => return value
  | _ => none

/-- The value that a JSON text denotes. -/
def read? (s : String) : Option Datum :=
  Token.scan? s.toList >>= ofTokens?

end ForgeSync.Json
