import ForgeSync.Yaml.Scalar

/-!
# The tokens of YAML text

A text is cut into tokens by a machine that takes off one token at a time. Indentation becomes
tokens of its own: a collection in block style opens where a line starts further to the right than
the collection around it, and closes where a line starts further to the left.

That something is the key of a map is seen only at the colon behind it. So the machine remembers
for every level of brackets where a key may have begun, and puts the mark of a key there when it
meets the colon. A key without a mark of its own must end on the line where it began.

Main statement: `tokens?` is total, because every token takes at least one character off the text.
-/

namespace ForgeSync.Yaml

inductive Token where
  | version
  | documentStart
  | documentEnd
  | openItems
  | openMembers
  | close
  /-- The mark of an item in block style. -/
  | item
  | key
  | value
  | openList
  | closeList
  | openMap
  | closeMap
  | comma
  | anchor (name : String)
  | alias (name : String)
  | tag (name : String)
  | scalar (plain : Bool) (text : String)
  deriving DecidableEq, Repr

/-- A place in a text. -/
structure Mark where
  line : Nat := 0
  column : Nat := 0
  offset : Nat := 0

/-- The place behind some characters. -/
def Mark.over (m : Mark) (cs : List Char) : Mark :=
  cs.foldl (fun m c =>
    if isBreak c then ⟨m.line + 1, 0, m.offset + 1⟩ else ⟨m.line, m.column + 1, m.offset + 1⟩) m

/-- Where a key may have begun. -/
structure KeyStart where
  /-- How many tokens stand before it. -/
  index : Nat
  mark : Mark
  /-- Whether nothing but a key can stand there. -/
  required : Bool

/-- How many characters a key without a mark may have. -/
def keyLimit : Nat := 1024

structure Scan where
  rest : List Char
  mark : Mark := {}
  /-- The columns of the open collections in block style, the innermost first. -/
  indents : List Nat := []
  /-- Where a key may have begun on this level of brackets. -/
  pending : Option KeyStart := none
  /-- The same for the levels around this one. -/
  outer : List (Option KeyStart) := []
  /-- Whether a key without a mark may begin here. -/
  keyAllowed : Bool := true
  /-- The tokens so far, reversed. -/
  done : List Token := []

namespace Scan

/-- Whether the machine is between brackets. -/
def inFlow (s : Scan) : Bool :=
  !s.outer.isEmpty

def emit (t : Token) (s : Scan) : Scan :=
  { s with done := t :: s.done }

/-- Goes on at a later place of the text. -/
def moveTo (rest : List Char) (s : Scan) : Scan :=
  { s with rest, mark := s.mark.over (s.rest.take (s.rest.length - rest.length)) }

/-- Takes `n` characters off the text. -/
def advance (n : Nat) (s : Scan) : Scan :=
  s.moveTo (s.rest.drop n)

/-- Puts a token behind the first `index` tokens. -/
def insert (index : Nat) (t : Token) (s : Scan) : Scan :=
  let newer := s.done.length - index
  { s with done := s.done.take newer ++ t :: s.done.drop newer }

/-- Closes the block collections that begin to the right of a column. -/
def closeBeyond (column : Nat) (s : Scan) : Scan :=
  if s.inFlow then s
  else
    let gone := s.indents.takeWhile (column < ·)
    { s with
      indents := s.indents.drop gone.length
      done := List.replicate gone.length .close ++ s.done }

/-- Closes all block collections. -/
def closeAll (s : Scan) : Scan :=
  if s.inFlow then s
  else { s with indents := [], done := List.replicate s.indents.length .close ++ s.done }

/-- Opens a block collection at a column, unless it is open already. -/
def openAt (column index : Nat) (opening : Token) (s : Scan) : Scan :=
  if !s.inFlow && s.indents.head?.all (· < column) then
    { s.insert index opening with indents := column :: s.indents }
  else s

/-- Gives up a place where a key may have begun. -/
def dropKey (s : Scan) : Option Scan :=
  if s.pending.any (·.required) then none else some { s with pending := none }

/-- Remembers that a key may begin here. -/
def saveKey (s : Scan) : Option Scan :=
  if s.keyAllowed then do
    let s ← s.dropKey
    let required := !s.inFlow && s.indents.head? = some s.mark.column
    return { s with pending := some ⟨s.done.length, s.mark, required⟩ }
  else some s

/-- Whether a key that has begun there can no longer end in a colon here. -/
def isStale (s : Scan) (k : KeyStart) : Bool :=
  k.mark.line < s.mark.line || k.mark.offset + keyLimit < s.mark.offset

/-- Gives up the places from which no key can reach the present one. -/
def dropStale (s : Scan) : Option Scan :=
  let stale (key : Option KeyStart) : Bool := key.any s.isStale
  let kept (key : Option KeyStart) : Option KeyStart := if stale key then none else key
  if (s.pending :: s.outer).any fun key => stale key && key.any (·.required) then none
  else some { s with pending := kept s.pending, outer := s.outer.map kept }

/-- Passes over blanks, comments and line breaks. Gives what follows, and whether a key may begin
there. -/
def skipBlanks (flow : Bool) (keyAllowed comment : Bool) : List Char → List Char × Bool
  | [] => ([], keyAllowed)
  | c :: rest =>
    if isBreak c then skipBlanks flow (keyAllowed || !flow) false rest
    else if comment || c = ' ' || (c = '\t' && (flow || !keyAllowed)) then
      skipBlanks flow keyAllowed comment rest
    else if c = '#' then skipBlanks flow keyAllowed true rest
    else (c :: rest, keyAllowed)

/-- Goes to the next token. -/
def toToken (s : Scan) : Option Scan := do
  let (rest, keyAllowed) := skipBlanks s.inFlow s.keyAllowed false s.rest
  let s ← dropStale { s.moveTo rest with keyAllowed }
  return s.closeBeyond s.mark.column

/-! ## Tokens one by one -/

/-- A token that closes all collections before it. -/
def separator (t : Token) (length : Nat) (s : Scan) : Option Scan := do
  let s ← s.closeAll.dropKey
  return { (s.advance length).emit t with keyAllowed := false }

/-- A directive. Only that of the version is known, and versions other than 1.1 and 1.2 are
refused. -/
def directive (s : Scan) : Option Scan := do
  let line := s.rest.takeWhile (!isBreak ·)
  let words := ((String.ofList line).split isBlank).toStringList.filter (· ≠ "")
  let words := words.takeWhile fun w => !w.startsWith "#"
  if words = ["%YAML", "1.1"] ∨ words = ["%YAML", "1.2"] then
    s.separator .version line.length
  else none

def openBracket (t : Token) (s : Scan) : Option Scan := do
  let s ← s.saveKey
  return { (s.advance 1).emit t with
    outer := s.pending :: s.outer, pending := none, keyAllowed := true }

def closeBracket (t : Token) (s : Scan) : Option Scan := do
  let s ← s.dropKey
  return { (s.advance 1).emit t with
    pending := s.outer.head?.join, outer := s.outer.tail, keyAllowed := false }

def comma (s : Scan) : Option Scan := do
  let s ← s.dropKey
  return { (s.advance 1).emit .comma with keyAllowed := true }

/-- The mark of an item or of a key, which opens a block collection if need be. -/
def indicator (opening t : Token) (s : Scan) : Option Scan := do
  if !s.inFlow && !s.keyAllowed then none
  let s ← (s.openAt s.mark.column s.done.length opening).dropKey
  return (s.advance 1).emit t

def item (s : Scan) : Option Scan := do
  return { (← s.indicator .openItems .item) with keyAllowed := true }

def markedKey (s : Scan) : Option Scan := do
  return { (← s.indicator .openMembers .key) with keyAllowed := !s.inFlow }

/-- The colon behind a key: behind one that began without a mark, or else behind none. -/
def colon (s : Scan) : Option Scan :=
  match s.pending with
  | some k =>
    let s := (s.insert k.index .key).openAt k.mark.column k.index .openMembers
    some { (s.advance 1).emit .value with pending := none, keyAllowed := false }
  | none =>
    if !s.inFlow && !s.keyAllowed then none
    else
      let s := s.openAt s.mark.column s.done.length .openMembers
      some { (s.advance 1).emit .value with keyAllowed := !s.inFlow }

def isNameChar (c : Char) : Bool :=
  c.isAlphanum || c = '_' || c = '-'

/-- A name behind `&` or `*`. -/
def name (t : String → Token) (s : Scan) : Option Scan := do
  let s ← s.saveKey
  let cs := s.rest.tail
  let name := cs.takeWhile isNameChar
  let rest := cs.dropWhile isNameChar
  if name.isEmpty then none
  if endsWord rest || rest.head?.any (['?', ':', ',', ']', '\x7d', '%', '@', '\x60'].contains ·)
  then return { (s.moveTo rest).emit (t (String.ofList name)) with keyAllowed := false }
  else none

/-- The full name of a tag: `!!` stands for the tags of YAML itself. -/
def tagName (cs : List Char) : String :=
  match cs with
  | '!' :: '!' :: suffix => "tag:yaml.org,2002:" ++ String.ofList suffix
  | '!' :: '<' :: verbatim => String.ofList (verbatim.takeWhile (· ≠ '>'))
  | _ => String.ofList cs

def tag (s : Scan) : Option Scan := do
  let s ← s.saveKey
  let ends (c : Char) : Bool := isBlank c || isBreak c || (s.inFlow && c = ',')
  let cs := s.rest.takeWhile (!ends ·)
  return { (s.moveTo (s.rest.dropWhile (!ends ·))).emit (.tag (tagName cs)) with
    keyAllowed := false }

def blockScalar (folded : Bool) (s : Scan) : Option Scan := do
  let s ← s.dropKey
  let (text, rest) ← block? folded s.indents.head? s.rest.tail
  return { (s.moveTo rest).emit (.scalar false (String.ofList text)) with keyAllowed := true }

def quotedScalar (read? : Nat → List Char → Option (List Char × List Char)) (s : Scan) :
    Option Scan := do
  let s ← s.saveKey
  let (text, rest) ← read? (s.mark.column + 1) s.rest.tail
  return { (s.moveTo rest).emit (.scalar false (String.ofList text.reverse)) with
    keyAllowed := false }

def plainScalar (s : Scan) : Option Scan := do
  let s ← s.saveKey
  let least := s.indents.head?.elim 0 (· + 1)
  let (text, gap, rest) ← plainScalar? s.inFlow least s.mark.column .none [] s.rest
  return { (s.moveTo rest).emit (.scalar true (String.ofList text.reverse)) with
    keyAllowed := gap.isLines }

/-- Takes the token off that begins with `c`. -/
def step (s : Scan) (c : Char) : Option Scan :=
  let rest := s.rest.tail
  let atStart := s.mark.column = 0
  if atStart && c = '%' then s.directive
  else if atStart && isMarker s.rest then
    s.separator (if c = '-' then .documentStart else .documentEnd) 3
  else if c = '[' then s.openBracket .openList
  else if c = '\x7b' then s.openBracket .openMap
  else if c = ']' then s.closeBracket .closeList
  else if c = '\x7d' then s.closeBracket .closeMap
  else if c = ',' then s.comma
  else if c = '-' && endsWord rest then s.item
  else if c = '?' && (s.inFlow || endsWord rest) then s.markedKey
  else if c = ':' && (s.inFlow || endsWord rest) then s.colon
  else if c = '&' then s.name .anchor
  else if c = '*' then s.name .alias
  else if c = '!' then s.tag
  else if c = '|' && !s.inFlow then s.blockScalar false
  else if c = '>' && !s.inFlow then s.blockScalar true
  else if c = '\x27' then s.quotedScalar fun column => singleQuoted? column .none []
  else if c = '"' then s.quotedScalar fun column => doubleQuoted? column .none .none []
  else if startsPlain s.inFlow c rest then s.plainScalar
  else none

/-- Takes off tokens to the end of the text, at most as many as `fuel` says. -/
def run : Nat → Scan → Option (List Token)
  | 0, _ => none
  | fuel + 1, s => do
    let s ← s.toToken
    match s.rest with
    | [] => return (← s.closeAll.dropKey).done.reverse
    | c :: _ => run fuel (← s.step c)

end Scan

/-- Whether a character may stand in a text. -/
def isAllowed (c : Char) : Bool :=
  let n := c.toNat
  c = '\t' || c = '\n' || (0x20 ≤ n && n ≤ 0x7E) || (0xA0 ≤ n && n ≤ 0xFFFD) || 0x10000 ≤ n

/-- The tokens of a text, if it can be cut into tokens. -/
def tokens? (s : String) : Option (List Token) :=
  let cs := unifyBreaks s.toList
  let cs := match cs with
    | '\ufeff' :: rest => rest
    | _ => cs
  if cs.all isAllowed then Scan.run (cs.length + 1) { rest := cs } else none

end ForgeSync.Yaml
