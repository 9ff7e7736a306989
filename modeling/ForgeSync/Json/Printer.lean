import ForgeSync.Datum

/-!
# Writing JSON text

Two layouts: compact, without any blank, and spread over lines that are indented by two blanks
per level. Both quote a text in the same way: quotes, backslashes and controls are escaped, and
every other character stands for itself.
-/

namespace ForgeSync.Json

/-- One character of a quoted text. -/
def quotedChar (c : Char) : List Char :=
  if c = '"' then ['\\', '"']
  else if c = '\\' then ['\\', '\\']
  else if c = '\x08' then ['\\', 'b']
  else if c = '\x0c' then ['\\', 'f']
  else if c = '\n' then ['\\', 'n']
  else if c = '\r' then ['\\', 'r']
  else if c = '\t' then ['\\', 't']
  else if c.toNat < 0x20 then
    ['\\', 'u', '0', '0', Nat.digitChar (c.toNat / 16), Nat.digitChar (c.toNat % 16)]
  else [c]

/-- A text between double quotes. -/
def quote (s : String) : String :=
  "\"" ++ String.ofList (s.toList.flatMap quotedChar) ++ "\""

mutual

/-- A value without any blank between its tokens. -/
def compact : Datum → String
  | .null => "null"
  | .bool b => if b then "true" else "false"
  | .int i => toString i
  | .real numeral => numeral
  | .text s => quote s
  | .plain s => quote s
  | .list items => "[" ++ ",".intercalate (compactItems items) ++ "]"
  | .series items => "[" ++ ",".intercalate (compactItems items) ++ "]"
  | .map members => "\x7b" ++ ",".intercalate (compactMembers members) ++ "\x7d"

def compactItems : List Datum → List String
  | [] => []
  | d :: rest => compact d :: compactItems rest

def compactMembers : List (String × Datum) → List String
  | [] => []
  | (key, value) :: rest => (quote key ++ ":" ++ compact value) :: compactMembers rest

end

/-- A line break and the indentation of a level. -/
def newline (level : Nat) : String :=
  "\n" ++ String.ofList (List.replicate (2 * level) ' ')

/-- Lines between brackets, or the brackets alone where there is nothing between them. -/
def spreadLines (opening closing : String) (level : Nat) (lines : List String) : String :=
  match lines with
  | [] => opening ++ closing
  | _ =>
    opening ++ newline (level + 1) ++ ("," ++ newline (level + 1)).intercalate lines ++
      newline level ++ closing

mutual

/-- A value spread over lines, from a level of indentation on. -/
def spread (level : Nat) : Datum → String
  | .list items => spreadLines "[" "]" level (spreadItems (level + 1) items)
  | .series items => spreadLines "[" "]" level (spreadItems (level + 1) items)
  | .map members => spreadLines "\x7b" "\x7d" level (spreadMembers (level + 1) members)
  | d => compact d

def spreadItems (level : Nat) : List Datum → List String
  | [] => []
  | d :: rest => spread level d :: spreadItems level rest

def spreadMembers (level : Nat) : List (String × Datum) → List String
  | [] => []
  | (key, value) :: rest =>
    (quote key ++ ": " ++ spread level value) :: spreadMembers level rest

end

/-- A value spread over lines. -/
def pretty (d : Datum) : String :=
  spread 0 d

end ForgeSync.Json
