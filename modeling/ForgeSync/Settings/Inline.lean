import ForgeSync.Datum
import ForgeSync.Text.Blank

/-!
# Values in one line

How a value is written where only one line is at hand, as in a variable of the environment: a
truth value, a number, a text between quotes, a list `[a, b]` or a map of the form `k = v` between
braces. Whatever is none of these is a text, exactly as it stands.
-/

namespace ForgeSync.Inline

def isBlank (c : Char) : Bool :=
  c = ' ' || c = '\t' || c = '\n' || c = '\x0c' || c = '\r'

/-- Whether a character ends a word that stands without quotes. -/
def isSeparator (c : Char) : Bool :=
  c = ',' || c = '[' || c = ']' || c = '\x7b' || c = '\x7d'

def isKeyChar (c : Char) : Bool :=
  c.isAlphanum || c = '_' || c = '-'

/-- The integer that a word spells, if it fits into a word of 64 bits. -/
def intOfWord? (cs : List Char) : Option Int :=
  match cs with
  | '-' :: digits =>
    (Text.readBelow (Text.bound63 + 1) (if digits.head? = some '+' then [] else digits)).map
      fun n => -Int.ofNat n
  | _ => (Text.readBelow Text.bound64 cs).map Int.ofNat

/-- What a word without quotes stands for. -/
def ofWord (s : String) : Datum :=
  let cs := s.toList
  let unsigned := match cs with
    | '+' :: rest => rest
    | '-' :: rest => rest
    | _ => cs
  if cs.contains '.' && Datum.isRealNumeral unsigned then .real s
  else match intOfWord? cs with
    | some i => .int i
    | none => .text s

/-- The rest of a text behind its beginning. -/
def behind? (beginning : String) (cs : List Char) : Option (List Char) :=
  if beginning.toList.isPrefixOf cs then some (cs.drop beginning.length) else none

/-- The character that an escape stands for. -/
def unescape? (c : Char) : Option Char :=
  match c with
  | '"' | '\\' => some c
  | 'b' => some '\x08'
  | 'f' => some '\x0c'
  | 'n' => some '\n'
  | 'r' => some '\r'
  | 't' => some '\t'
  | _ => none

/-- Reads a text up to its closing quote; the text so far is reversed. -/
def quoted? (done : List Char) : List Char → Option (String × List Char)
  | [] => none
  | '\\' :: c :: rest => do quoted? ((← unescape? c) :: done) rest
  | c :: rest =>
    if c = '"' then some (String.ofList done.reverse, rest) else quoted? (c :: done) rest

/-- Reads a key. -/
def key? (cs : List Char) : Option (String × List Char) :=
  match cs with
  | '"' :: rest => quoted? [] rest
  | _ =>
    let key := cs.takeWhile isKeyChar
    if key.isEmpty then none else some (String.ofList key, cs.dropWhile isKeyChar)

mutual

/-- Reads a value with the blanks around it. -/
def value? (fuel : Nat) (cs : List Char) : Option (Datum × List Char) :=
  match fuel with
  | 0 => none
  | fuel + 1 => do
    let cs := cs.dropWhile isBlank
    let (d, rest) ←
      match behind? "true" cs, behind? "false" cs with
      | some rest, _ => some (.bool true, rest)
      | _, some rest => some (.bool false, rest)
      | none, none =>
        match cs with
        | '[' :: rest => (items? fuel rest).map fun (ds, rest) => (.list ds, rest)
        | '\x7b' :: rest => (members? fuel rest).map fun (ms, rest) => (.map ms, rest)
        | '"' :: rest => (quoted? [] rest).map fun (s, rest) => (.text s, rest)
        | '\x27' :: c :: '\x27' :: rest => some (.text c.toString, rest)
        | '\x27' :: _ => none
        | _ =>
          let word := String.ofList (cs.takeWhile (!isSeparator ·))
          some (ofWord (Text.trim word), cs.dropWhile (!isSeparator ·))
    return (d, rest.dropWhile isBlank)

/-- Reads items up to the closing bracket. -/
def items? (fuel : Nat) (cs : List Char) : Option (List Datum × List Char) :=
  match fuel with
  | 0 => none
  | fuel + 1 =>
    match cs with
    | ']' :: rest => some ([], rest)
    | _ => do
      let (d, rest) ← value? fuel cs
      match rest with
      | ',' :: rest => (items? fuel rest).map fun (ds, rest) => (d :: ds, rest)
      | ']' :: rest => some ([d], rest)
      | _ => none

/-- Reads members up to the closing brace. -/
def members? (fuel : Nat) (cs : List Char) : Option (List (String × Datum) × List Char) :=
  match fuel with
  | 0 => none
  | fuel + 1 =>
    match cs with
    | '\x7d' :: rest => some ([], rest)
    | _ => do
      let (key, rest) ← key? (cs.dropWhile isBlank)
      match rest.dropWhile isBlank with
      | '=' :: rest =>
        let (d, rest) ← value? fuel rest
        match rest with
        | ',' :: rest => (members? fuel rest).map fun (ms, rest) => ((key, d) :: ms, rest)
        | '\x7d' :: rest => some ([(key, d)], rest)
        | _ => none
      | _ => none

end

/-- The value that a line stands for. -/
def read (line : String) : Datum :=
  let cs := line.toList
  match value? (2 * cs.length + 2) cs with
  | some (d, []) => d.lastMembers
  | _ => .text line

end ForgeSync.Inline
