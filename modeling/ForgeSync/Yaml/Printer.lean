import ForgeSync.Yaml.Scalar

/-!
# Writing YAML text

Collections are written in block style, one member or item a line, indented by two blanks per
level. A text stands plain where it is a plain word that nobody takes for anything else, and
between double quotes everywhere else.
-/

namespace ForgeSync.Yaml

/-- The hexadecimal digits of a number, filled up to eight. -/
def eightDigits (n : Nat) : List Char :=
  let digits := Nat.toDigits 16 n
  List.replicate (8 - digits.length) '0' ++ digits

/-- Whether a character stands for itself between double quotes. -/
def isPrintable (c : Char) : Bool :=
  let n := c.toNat
  (0x20 ≤ n && n ≤ 0x7E) || (0xA0 ≤ n && n ≤ 0xFFFD && !isBreak c && c ≠ '\ufeff') || 0x10000 ≤ n

/-- One character between double quotes. -/
def quotedChar (c : Char) : List Char :=
  if c = '"' ∨ c = '\\' then ['\\', c]
  else if c = '\n' then ['\\', 'n']
  else if c = '\t' then ['\\', 't']
  else if isPrintable c then [c]
  else '\\' :: 'U' :: eightDigits c.toNat

/-- Whether a text is a word that can stand plain. -/
def isPlainWord (s : String) : Bool :=
  let wordChar (c : Char) : Bool := c.isAlphanum || ['_', '-', '.', '/'].contains c
  s.toList.head?.any Char.isAlpha && s.toList.all wordChar && Datum.resolvePlain s matches .text _

def writeText (s : String) : String :=
  if isPlainWord s then s else "\"" ++ String.ofList (s.toList.flatMap quotedChar) ++ "\""

/-- A scalar, or a collection in which nothing is. -/
def writeSimple : Datum → String
  | .null => "null"
  | .bool b => if b then "true" else "false"
  | .int i => toString i
  | .real numeral => numeral
  | .text s => writeText s
  | .plain s => s
  | .list _ | .series _ => "[]"
  | .map _ => "\x7b\x7d"

def indentation (level : Nat) : String :=
  String.ofList (List.replicate (2 * level) ' ')

mutual

/-- A value behind the mark of an item or a key; the lines of a collection are at a level. -/
def writeBelow (level : Nat) : Datum → String
  | .list (d :: rest) => "\n" ++ writeItems level (d :: rest)
  | .series (d :: rest) => "\n" ++ writeItems level (d :: rest)
  | .map (m :: rest) => "\n" ++ writeMembers level (m :: rest)
  | d => " " ++ writeSimple d ++ "\n"

def writeItems (level : Nat) : List Datum → String
  | [] => ""
  | d :: rest => indentation level ++ "-" ++ writeBelow (level + 1) d ++ writeItems level rest

def writeMembers (level : Nat) : List (String × Datum) → String
  | [] => ""
  | (key, value) :: rest =>
    indentation level ++ writeText key ++ ":" ++ writeBelow (level + 1) value ++
      writeMembers level rest

end

/-- A value as a document. -/
def write : Datum → String
  | .list (d :: rest) => writeItems 0 (d :: rest)
  | .series (d :: rest) => writeItems 0 (d :: rest)
  | .map (m :: rest) => writeMembers 0 (m :: rest)
  | d => writeSimple d ++ "\n"

end ForgeSync.Yaml
