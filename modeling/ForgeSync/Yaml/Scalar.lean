import ForgeSync.Datum

/-!
# Scalars of YAML text

The four ways in which a text is written as one scalar: plain, between single quotes, between
double quotes, and as an indented block. In the first three the line breaks inside a scalar are
folded: one break stands for a blank, and every further one for itself. A block keeps its line
breaks, or folds those between lines that are not indented further.

Every reader takes the characters behind the opening of a scalar and gives its text and what
follows it.
-/

namespace ForgeSync.Yaml

def isBlank (c : Char) : Bool :=
  c = ' ' || c = '\t'

/-- The ends of lines that are left when all ends of lines are written alike. -/
def isBreak (c : Char) : Bool :=
  c = '\n' || c = '\u2028' || c = '\u2029'

/-- Whether a word ends here: before a blank, a line break or the end of the text. -/
def endsWord : List Char → Bool
  | [] => true
  | c :: _ => isBlank c || isBreak c

/-- Carriage returns and next-line characters as line feeds. -/
def unifyBreaks : List Char → List Char
  | [] => []
  | '\r' :: '\n' :: rest => '\n' :: unifyBreaks rest
  | c :: rest => (if c = '\r' ∨ c = '\u0085' then '\n' else c) :: unifyBreaks rest

/-- Whether a line that begins here separates documents. -/
def isMarker (cs : List Char) : Bool :=
  match cs with
  | '-' :: '-' :: '-' :: rest => endsWord rest
  | '.' :: '.' :: '.' :: rest => endsWord rest
  | _ => false

/-! ## Folding -/

/-- The white space since the last word of a scalar, reversed. -/
inductive Gap where
  | none
  | blanks (done : List Char)
  /-- The first line break, unless it was escaped, and the later ones. -/
  | lines (first : Option Char) (more : List Char)

namespace Gap

def blank (c : Char) : Gap → Gap
  | none => blanks [c]
  | blanks done => blanks (c :: done)
  | lines first more => lines first more

def lineBreak (c : Char) : Gap → Gap
  | lines first more => lines first (c :: more)
  | _ => lines (some c) []

def isNone : Gap → Bool
  | none => true
  | _ => false

def isLines : Gap → Bool
  | lines _ _ => true
  | _ => false

/-- Puts what the white space stands for in front of a reversed text. -/
def onto (done : List Char) : Gap → List Char
  | none => done
  | blanks bs => bs ++ done
  | lines (some '\n') [] => ' ' :: done
  | lines (some '\n') more => more ++ done
  | lines (some c) more => more ++ c :: done
  | lines .none more => more ++ done

end Gap

/-! ## Plain scalars -/

def isFlowIndicator (c : Char) : Bool :=
  c = ',' || c = '[' || c = ']' || c = '\x7b' || c = '\x7d'

/-- Whether a plain scalar ends before the word that begins with `c :: rest`. -/
def endsPlain (flow : Bool) (least column : Nat) (gap : Gap) (c : Char) (rest : List Char) :
    Bool :=
  (gap.isLines && !flow && column < least) || (!gap.isNone && c = '#') ||
    (column = 0 && isMarker (c :: rest)) || (c = ':' && endsWord rest) ||
    (flow && isFlowIndicator c)

/-- Reads a plain scalar whose further lines have `least` columns before them, unless it stands in
brackets. Gives the reversed text, the white space after it, and the rest. -/
def plainScalar? (flow : Bool) (least : Nat) :
    Nat → Gap → List Char → List Char → Option (List Char × Gap × List Char)
  | _, gap, done, [] => some (done, gap, [])
  | column, gap, done, c :: rest =>
    if isBlank c then
      if c = '\t' && gap.isLines && column < least then none
      else plainScalar? flow least (column + 1) (gap.blank c) done rest
    else if isBreak c then plainScalar? flow least 0 (gap.lineBreak c) done rest
    else if endsPlain flow least column gap c rest then some (done, gap, c :: rest)
    else if flow && c = ':' && rest.head?.any (fun n => isFlowIndicator n || n = '?') then none
    else plainScalar? flow least (column + 1) .none (c :: gap.onto done) rest

/-- The characters that begin something else than a plain scalar. -/
def indicators : List Char :=
  ['#', '&', '*', '!', '|', '>', '\x27', '"', '%', '@', '\x60']

/-- Whether a plain scalar can begin here. -/
def startsPlain (flow : Bool) (c : Char) (rest : List Char) : Bool :=
  if c = '-' then rest.head?.all fun n => !isBlank n
  else if c = '?' || c = ':' then !flow && !endsWord rest
  else !(isBlank c || isBreak c || isFlowIndicator c || indicators.contains c)

/-! ## Quoted scalars -/

/-- Reads a scalar up to a single quote; two of them stand for one. -/
def singleQuoted? : Nat → Gap → List Char → List Char → Option (List Char × List Char)
  | _, _, _, [] => none
  | column, gap, done, '\x27' :: '\x27' :: rest =>
    singleQuoted? (column + 2) .none ('\x27' :: gap.onto done) rest
  | column, gap, done, c :: rest =>
    if c = '\x27' then some (gap.onto done, rest)
    else if isBlank c then singleQuoted? (column + 1) (gap.blank c) done rest
    else if isBreak c then singleQuoted? 0 (gap.lineBreak c) done rest
    else if column = 0 && isMarker (c :: rest) then none
    else singleQuoted? (column + 1) .none (c :: gap.onto done) rest

/-- What stands behind a backslash. -/
inductive Escape where
  | none
  | begun
  /-- Hexadecimal digits still owed, and the value so far. -/
  | code (owed value : Nat)

/-- The character that an escape of one letter stands for. -/
def unescape? (c : Char) : Option Char :=
  match c with
  | '0' => some '\x00'
  | 'a' => some '\x07'
  | 'b' => some '\x08'
  | 't' | '\t' => some '\t'
  | 'n' => some '\n'
  | 'v' => some '\x0b'
  | 'f' => some '\x0c'
  | 'r' => some '\r'
  | 'e' => some '\x1b'
  | 'N' => some '\u0085'
  | '_' => some '\u00a0'
  | 'L' => some '\u2028'
  | 'P' => some '\u2029'
  | ' ' | '"' | '/' | '\\' | '\x27' => some c
  | _ => none

/-- How many hexadecimal digits follow the letter of an escape. -/
def escapeLength? (c : Char) : Option Nat :=
  match c with
  | 'x' => some 2
  | 'u' => some 4
  | 'U' => some 8
  | _ => none

/-- The character with a number, if there is one. -/
def charOfCode? (n : Nat) : Option Char :=
  if n.isValidChar then some (Char.ofNat n) else none

/-- Reads a scalar up to a double quote. An escaped line break is left out. -/
def doubleQuoted? : Nat → Gap → Escape → List Char → List Char → Option (List Char × List Char)
  | _, _, _, _, [] => none
  | column, gap, .begun, done, c :: rest =>
    if isBreak c then doubleQuoted? 0 (.lines none []) .none (gap.onto done) rest
    else match escapeLength? c with
      | some owed => doubleQuoted? (column + 1) .none (.code owed 0) (gap.onto done) rest
      | none =>
        match unescape? c with
        | some e => doubleQuoted? (column + 1) .none .none (e :: gap.onto done) rest
        | none => none
  | column, gap, .code owed value, done, c :: rest =>
    match Datum.digitInBase? 16 c with
    | none => none
    | some digit =>
      if 1 < owed then
        doubleQuoted? (column + 1) gap (.code (owed - 1) (16 * value + digit)) done rest
      else match charOfCode? (16 * value + digit) with
        | some e => doubleQuoted? (column + 1) .none .none (e :: done) rest
        | none => none
  | column, gap, .none, done, c :: rest =>
    if c = '"' then some (gap.onto done, rest)
    else if c = '\\' then doubleQuoted? (column + 1) gap .begun done rest
    else if isBlank c then doubleQuoted? (column + 1) (gap.blank c) .none done rest
    else if isBreak c then doubleQuoted? 0 (gap.lineBreak c) .none done rest
    else if column = 0 && isMarker (c :: rest) then none
    else doubleQuoted? (column + 1) .none .none (c :: gap.onto done) rest

/-! ## Blocks -/

structure Line where
  text : List Char
  ending : Option Char

/-- The lines of a text. -/
def lines : List Char → List Line
  | [] => []
  | c :: rest =>
    if isBreak c then ⟨[], some c⟩ :: lines rest
    else match lines rest with
      | [] => [⟨[c], none⟩]
      | line :: more => ⟨c :: line.text, line.ending⟩ :: more

/-- The text of lines. -/
def unlines (ls : List Line) : List Char :=
  ls.flatMap fun l => l.text ++ l.ending.toList

/-- What happens to the line breaks at the end of a block. -/
inductive Chomp where
  /-- One is kept. -/
  | clip
  | strip
  | keep
  deriving DecidableEq

structure BlockStyle where
  folded : Bool
  chomp : Chomp
  /-- The indentation of the block relative to what it belongs to, if it is said. -/
  indent : Option Nat

/-- The indentation that a digit says. -/
def indentOfDigit? (c : Char) : Option Nat :=
  if '1' ≤ c ∧ c ≤ '9' then some (c.toNat - '0'.toNat) else none

def chompOfSign? (c : Char) : Option Chomp :=
  if c = '+' then some .keep else if c = '-' then some .strip else none

/-- Reads the indicators of a block. -/
def blockIndicators (folded : Bool) (cs : List Char) : BlockStyle × List Char :=
  let signed (indent : Option Nat) (cs : List Char) : BlockStyle × List Char :=
    match cs with
    | c :: rest =>
      match chompOfSign? c with
      | some chomp => (⟨folded, chomp, indent⟩, rest)
      | none => (⟨folded, .clip, indent⟩, cs)
    | [] => (⟨folded, .clip, indent⟩, [])
  match cs with
  | [] => (⟨folded, .clip, none⟩, [])
  | c :: rest =>
    match indentOfDigit? c with
    | some n => signed (some n) rest
    | none =>
      match chompOfSign? c with
      | none => (⟨folded, .clip, none⟩, cs)
      | some chomp =>
        match rest with
        | [] => (⟨folded, chomp, none⟩, [])
        | d :: more =>
          match indentOfDigit? d with
          | some n => (⟨folded, chomp, some n⟩, more)
          | none => (⟨folded, chomp, none⟩, rest)

/-- Reads the first line of a block, on which only a comment may follow the indicators. -/
def blockHeader? (folded : Bool) (cs : List Char) : Option (BlockStyle × List Char) :=
  let (style, rest) := blockIndicators folded cs
  let rest := rest.dropWhile isBlank
  let rest := match rest with
    | '#' :: comment => comment.dropWhile (!isBreak ·)
    | _ => rest
  match rest with
  | [] => some (style, [])
  | c :: rest => if isBreak c then some (style, rest) else none

/-- The blanks before the first line that is not blank, or the most before any line until then. -/
def detectIndent? : Nat → List Line → Option Nat
  | most, [] => some most
  | most, line :: more =>
    let leading := (line.text.takeWhile (· = ' ')).length
    match line.text.drop leading with
    | [] =>
      if line.ending.isSome then detectIndent? (max most leading) more
      else some (max most leading)
    | c :: _ => if c = '\t' then none else some (max most leading)

/-- What was read of a block; texts are reversed. -/
structure BlockText where
  done : List Char := []
  /-- The end of the last line of content. -/
  ending : Option Char := none
  /-- The line breaks of the blank lines since. -/
  blankLines : List Char := []
  /-- Whether the last line of content is indented further. -/
  indented : Bool := false

namespace BlockText

/-- Adds a line of content. -/
def content (style : BlockStyle) (t : BlockText) (text : List Char) (ending : Option Char) :
    BlockText :=
  let indented := text.head?.any isBlank
  let joint :=
    if style.folded && t.ending = some '\n' && !t.indented && !indented then
      if t.blankLines.isEmpty then [' '] else t.blankLines
    else t.blankLines ++ t.ending.toList
  { done := text.reverse ++ joint ++ t.done, ending, blankLines := [], indented }

/-- The text in the end. -/
def finish (style : BlockStyle) (t : BlockText) : List Char :=
  match style.chomp with
  | .strip => t.done.reverse
  | .clip => t.done.reverse ++ t.ending.toList
  | .keep => t.done.reverse ++ t.ending.toList ++ t.blankLines.reverse

end BlockText

/-- Reads the lines of a block of `indent` columns; gives its text and the lines behind it. -/
def blockLines? (style : BlockStyle) (indent : Nat) :
    BlockText → List Line → Option (List Char × List Line)
  | t, [] => some (t.finish style, [])
  | t, line :: more =>
    let leading := min indent (line.text.takeWhile (· = ' ')).length
    match line.text.drop leading with
    | [] =>
      match line.ending with
      | some c => blockLines? style indent { t with blankLines := c :: t.blankLines } more
      | none => some (t.finish style, [])
    | c :: text =>
      if leading < indent then
        if c = '\t' then none else some (t.finish style, line :: more)
      else blockLines? style indent (t.content style (c :: text) line.ending) more

/-- Reads a block in a collection of `parent` columns; gives its text and what follows it. -/
def block? (folded : Bool) (parent : Option Nat) (cs : List Char) :
    Option (List Char × List Char) := do
  let (style, rest) ← blockHeader? folded cs
  let body := lines rest
  let indent ← match style.indent with
    | some n => some (parent.getD 0 + n)
    | none => (detectIndent? 0 body).map fun n => max (max n (parent.elim 0 (· + 1))) 1
  let (text, more) ← blockLines? style indent {} body
  return (text, unlines more)

end ForgeSync.Yaml
