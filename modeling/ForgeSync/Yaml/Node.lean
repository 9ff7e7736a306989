import ForgeSync.Yaml.Token

/-!
# Nodes of YAML documents

A document is a tree of scalars, sequences and mappings. A tree is looked at in two ways. Where
the reader knows what it wants, a plain scalar is what its field reads from it (`Node.datum?`).
Where nobody knows, the scalar decides for itself (`Node.resolved?`), and a tag may decide for it.

`readNodes?` builds trees from tokens. An anchor names a tree once it is complete; an alias stands
for the tree of the latest anchor of its name.
-/

namespace ForgeSync.Yaml

inductive Node where
  | scalar (plain : Bool) (tag : Option String) (text : String)
  | sequence (tag : Option String) (items : List Node)
  | mapping (tag : Option String) (members : List (Node × Node))
  deriving Inhabited, Repr

namespace Node

/-- A node of which nothing is written. -/
def absent (tag : Option String) : Node :=
  .scalar true tag ""

/-- The text of a key. -/
def key? : Node → Option String
  | scalar _ _ text => some text
  | _ => none

mutual

/-- A tree for a reader that knows what it wants. -/
def datum? : Node → Option Datum
  | scalar plain _ text => some (if plain then .plain text else .text text)
  | sequence _ items => (dataOf? items).map .series
  | mapping _ members => (membersOf? members).map .map

def dataOf? : List Node → Option (List Datum)
  | [] => some []
  | n :: rest => do return (← n.datum?) :: (← dataOf? rest)

def membersOf? : List (Node × Node) → Option (List (String × Datum))
  | [] => some []
  | (key, value) :: rest => do
    return (← key.key?, ← value.datum?) :: (← membersOf? rest)

end

/-- The tag of YAML itself with this suffix. -/
def coreTag (suffix : String) : String :=
  "tag:yaml.org,2002:" ++ suffix

/-- Whether a tag belongs to an application. -/
def isLocal (tag : Option String) : Bool :=
  tag.any (·.startsWith "!")

/-- What a scalar is by itself. -/
def resolveScalar? (plain : Bool) (tag : Option String) (text : String) : Option Datum :=
  let resolved := Datum.resolvePlain text
  let resolvedIf (p : Datum → Bool) : Option Datum := if p resolved then some resolved else none
  match tag with
  | none => some (if plain then resolved else .text text)
  | some t =>
    if t = coreTag "str" then some (.text text)
    else if t = coreTag "null" then resolvedIf (· matches .null)
    else if t = coreTag "bool" then resolvedIf (· matches .bool _)
    else if t = coreTag "int" then resolvedIf (· matches .int _)
    else if t = coreTag "float" then resolvedIf fun d => d matches .real _ || d matches .int _
    else if isLocal tag then none
    else some (if plain then resolved else .text text)

mutual

/-- A tree of which nothing is known. -/
def resolved? : Node → Option Datum
  | scalar plain tag text => resolveScalar? plain tag text
  | sequence tag items => if isLocal tag then none else (resolvedItems? items).map .list
  | mapping tag members =>
    if isLocal tag then none else (resolvedMembers? members).map .map

def resolvedItems? : List Node → Option (List Datum)
  | [] => some []
  | n :: rest => do return (← n.resolved?) :: (← resolvedItems? rest)

def resolvedMembers? : List (Node × Node) → Option (List (String × Datum))
  | [] => some []
  | (key, value) :: rest => do
    return (← key.key?, ← value.resolved?) :: (← resolvedMembers? rest)

end

/-- A text that is one by itself. -/
def text? (n : Node) : Option String :=
  match n.resolved? with
  | some (.text s) => some s
  | _ => none

/-- A mapping of texts to texts; the last of several values of a key counts. -/
def textTable? : Node → Option (Table String)
  | mapping tag members => do
    if isLocal tag then none
    let entries ← members.mapM fun (key, value) => do return (← key.text?, ← value.text?)
    return entries.foldl (fun table (key, value) => table.insert key value) ∅
  | _ => none

end Node

/-! ## Nodes from tokens -/

/-- What is left to read, and the trees that have a name. -/
structure Reading where
  tokens : List Token
  anchors : List (String × Node) := []

/-- A step of reading. -/
abbrev Parse (α : Type) := StateT Reading Option α

namespace Parse

/-- The next token. -/
def peek? : Parse (Option Token) :=
  return (← get).tokens.head?

/-- Whether the next token is one of these. -/
def sees (ts : List Token) : Parse Bool :=
  return (← peek?).any (ts.contains ·)

/-- Whether the next token is none of these. -/
def seesOther (ts : List Token) : Parse Bool :=
  return (← peek?).any (!ts.contains ·)

def skip : Parse Unit :=
  modify fun r => { r with tokens := r.tokens.tail }

/-- Takes a token if it is the next one. -/
def accept (t : Token) : Parse Bool := do
  if ← sees [t] then
    skip
    return true
  else return false

def expect (t : Token) : Parse Unit := do
  if !(← accept t) then failure

/-- The tree with a name. -/
def named (name : String) : Parse Node := do
  match (← get).anchors.find? (·.1 = name) with
  | some (_, n) => return n
  | none => failure

def remember (anchor : Option String) (n : Node) : Parse Unit :=
  match anchor with
  | some name => modify fun r => { r with anchors := (name, n) :: r.anchors }
  | none => pure ()

/-- The anchor and the tag before a node, in any order. -/
def properties : Parse (Option String × Option String) := do
  match ← peek? with
  | some (.anchor name) =>
    skip
    match ← peek? with
    | some (.tag t) => skip; return (some name, some t)
    | _ => return (some name, none)
  | some (.tag t) =>
    skip
    match ← peek? with
    | some (.anchor name) => skip; return (some name, some t)
    | _ => return (none, some t)
  | _ => return (none, none)

mutual

/-- A node. In block style, and behind a key in items that are not indented, more of them may
begin here. -/
def node (fuel : Nat) (block unindented : Bool) : Parse Node := do
  match fuel with
  | 0 => failure
  | fuel + 1 =>
    match ← peek? with
    | some (.alias name) =>
      skip
      named name
    | _ =>
      let (anchor, tag) ← properties
      let n ← content fuel block unindented (anchor.isSome || tag.isSome) tag
      remember anchor n
      return n

/-- A node behind its properties; if there are any, nothing has to follow. -/
def content (fuel : Nat) (block unindented hasProperties : Bool) (tag : Option String) :
    Parse Node := do
  match fuel with
  | 0 => failure
  | fuel + 1 =>
    match ← peek?, block, unindented with
    | some (.scalar plain text), _, _ =>
      skip
      return .scalar plain tag text
    | some .openList, _, _ =>
      skip
      return .sequence tag (← flowItems fuel true)
    | some .openMap, _, _ =>
      skip
      return .mapping tag (← flowMembers fuel true)
    | some .item, _, true => return .sequence tag (← looseItems fuel)
    | some .openItems, true, _ =>
      skip
      return .sequence tag (← blockItems fuel)
    | some .openMembers, true, _ =>
      skip
      return .mapping tag (← blockMembers fuel)
    | _, _, _ => if hasProperties then return .absent tag else failure

/-- The items of a sequence in block style, with its end. -/
def blockItems (fuel : Nat) : Parse (List Node) := do
  match fuel with
  | 0 => failure
  | fuel + 1 =>
    if ← accept .close then return []
    expect .item
    let n ← if ← seesOther [.item, .close] then node fuel true false else pure (.absent none)
    return n :: (← blockItems fuel)

/-- Items in block style that are not indented; nothing marks their end. -/
def looseItems (fuel : Nat) : Parse (List Node) := do
  match fuel with
  | 0 => failure
  | fuel + 1 =>
    if ← accept .item then
      let n ← if ← seesOther [.item, .key, .value, .close] then node fuel true false
        else pure (.absent none)
      return n :: (← looseItems fuel)
    else return []

/-- The members of a mapping in block style, with its end. -/
def blockMembers (fuel : Nat) : Parse (List (Node × Node)) := do
  match fuel with
  | 0 => failure
  | fuel + 1 =>
    if ← accept .close then return []
    expect .key
    let key ← if ← seesOther [.key, .value, .close] then node fuel true true
      else pure (.absent none)
    let value ←
      if ← accept .value then
        if ← seesOther [.key, .value, .close] then node fuel true true else pure (.absent none)
      else pure (.absent none)
    return (key, value) :: (← blockMembers fuel)

/-- The items of a sequence in brackets, with its end. An item may be a mapping of one member. -/
def flowItems (fuel : Nat) (first : Bool) : Parse (List Node) := do
  match fuel with
  | 0 => failure
  | fuel + 1 =>
    if ← accept .closeList then return []
    if !first then
      expect .comma
      if ← accept .closeList then return []
    let n ←
      if ← accept .key then
        let pair ← flowMember fuel .closeList
        pure (.mapping none [pair])
      else node fuel false false
    return n :: (← flowItems fuel false)

/-- The members of a mapping in brackets, with its end. -/
def flowMembers (fuel : Nat) (first : Bool) : Parse (List (Node × Node)) := do
  match fuel with
  | 0 => failure
  | fuel + 1 =>
    if ← accept .closeMap then return []
    if !first then
      expect .comma
      if ← accept .closeMap then return []
    let pair ←
      if ← accept .key then flowMember fuel .closeMap
      else
        let key ← node fuel false false
        pure (key, .absent none)
    return pair :: (← flowMembers fuel false)

/-- Key and value between brackets, behind the mark of the key. -/
def flowMember (fuel : Nat) (ending : Token) : Parse (Node × Node) := do
  match fuel with
  | 0 => failure
  | fuel + 1 =>
    let key ← if ← seesOther [.value, .comma, ending] then node fuel false false
      else pure (.absent none)
    let value ←
      if ← accept .value then
        if ← seesOther [.comma, ending] then node fuel false false else pure (.absent none)
      else pure (.absent none)
    return (key, value)

end

/-- The content of a document up to its end. -/
def document (fuel : Nat) : Parse Node := do
  modify fun r => { r with anchors := [] }
  if ← seesOther [.version, .documentStart, .documentEnd] then node fuel true false
  else return .absent none

/-- The documents that are left. Each of them begins with a mark, except the first. -/
def documents (fuel : Nat) (first : Bool) : Parse (List Node) := do
  match fuel with
  | 0 => failure
  | fuel + 1 =>
    match ← peek? with
    | none => return []
    | some .documentEnd =>
      if first then failure
      skip
      documents fuel false
    | some .version =>
      skip
      expect .documentStart
      return (← document fuel) :: (← documents fuel false)
    | some .documentStart =>
      skip
      return (← document fuel) :: (← documents fuel false)
    | some _ =>
      if first then return (← document fuel) :: (← documents fuel false) else failure

end Parse

/-- The documents of a text. -/
def documents? (s : String) : Option (List Node) := do
  let tokens ← tokens? s
  let (nodes, _) ← (Parse.documents (8 * tokens.length + 8) true).run { tokens }
  return nodes

/-- The only document of a text; a text without any character of content has none. -/
def document? (s : String) : Option (Option Node) :=
  match documents? s with
  | some [] => some none
  | some [n] => some (some n)
  | _ => none

/-- The value of a text, for a reader that knows what it wants. Without a document it is an empty
map. -/
def read? (s : String) : Option Datum :=
  match document? s with
  | none => none
  | some none => some (.map [])
  | some (some n) => n.datum?

/-- The value of a text of which nothing is known. -/
def resolve? (s : String) : Option Datum :=
  match document? s with
  | none => none
  | some none => some .null
  | some (some n) => n.resolved?

end ForgeSync.Yaml
