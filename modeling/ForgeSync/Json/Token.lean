import ForgeSync.Datum

/-!
# The tokens of JSON text

A text is cut into tokens by a machine that takes one character at a time, so the cut is a fold
over the text. Outside quotes a run of letters, digits, signs and points is one `scalar`; what
the run may spell is decided when it ends.
-/

namespace ForgeSync.Json

inductive Token where
  | openList
  | closeList
  | openMap
  | closeMap
  | comma
  | colon
  | text (value : String)
  | scalar (value : Datum)

namespace Token

/-- Where the machine stands within the text; characters of an unfinished token are reversed. -/
inductive Mode where
  | between
  | scalar (done : List Char)
  | quoted (done : List Char)
  | escaped (done : List Char)
  /-- After `\u`: digits still owed, the value so far, and the high surrogate before it. -/
  | codeUnit (done : List Char) (high : Option Nat) (owed value : Nat)
  /-- After a high surrogate, which only another escaped code unit may follow. -/
  | paired (done : List Char) (high : Nat) (backslash : Bool)

/-- The machine's state: its mode, and the finished tokens in reverse. -/
structure Scan where
  mode : Mode := .between
  done : List Token := []

/-- A digit other than zero followed by digits, or a single digit. -/
def isWholePart (digits : List Char) : Bool :=
  match digits with
  | [] => false
  | ['0'] => true
  | '0' :: _ => false
  | _ => digits.all Char.isDigit

/-- The integer or other number that a run of characters spells. A zero with a sign is no
integer. -/
def number? (cs : List Char) : Option Datum :=
  let (negative, unsigned) := match cs with
    | '-' :: r => (true, r)
    | r => (false, r)
  let whole := unsigned.takeWhile Char.isDigit
  let rest := unsigned.dropWhile Char.isDigit
  if !isWholePart whole then none
  else match rest with
    | [] =>
      match Text.natOfDigits? whole with
      | none => none
      | some n =>
        if negative then
          if n = 0 ∨ Text.bound63 < n then some (.real (String.ofList cs)) else some (.int (-Int.ofNat n))
        else if n < Text.bound64 then some (.int (Int.ofNat n)) else some (.real (String.ofList cs))
    | '.' :: f =>
      if f.head?.any Char.isDigit && Datum.isRealNumeral unsigned then
        some (.real (String.ofList cs))
      else none
    | _ => if Datum.isRealNumeral unsigned then some (.real (String.ofList cs)) else none

/-- What a run of characters outside quotes spells. -/
def scalar? (cs : List Char) : Option Datum :=
  match String.ofList cs with
  | "null" => some .null
  | "true" => some (.bool true)
  | "false" => some (.bool false)
  | _ => number? cs

def isScalarChar (c : Char) : Bool :=
  c.isAlphanum || c = '+' || c = '-' || c = '.'

def isBlank (c : Char) : Bool :=
  c = ' ' || c = '\t' || c = '\n' || c = '\r'

/-- A character between tokens. -/
def stepBetween (done : List Token) (c : Char) : Option Scan :=
  if isBlank c then some ⟨.between, done⟩
  else if c = '[' then some ⟨.between, .openList :: done⟩
  else if c = ']' then some ⟨.between, .closeList :: done⟩
  else if c = '\x7b' then some ⟨.between, .openMap :: done⟩
  else if c = '\x7d' then some ⟨.between, .closeMap :: done⟩
  else if c = ',' then some ⟨.between, .comma :: done⟩
  else if c = ':' then some ⟨.between, .colon :: done⟩
  else if c = '"' then some ⟨.quoted [], done⟩
  else if isScalarChar c then some ⟨.scalar [c], done⟩
  else none

/-- The character that an escape of one letter stands for. -/
def unescape? (c : Char) : Option Char :=
  match c with
  | '"' => some '"'
  | '\\' => some '\\'
  | '/' => some '/'
  | 'b' => some '\x08'
  | 'f' => some '\x0c'
  | 'n' => some '\n'
  | 'r' => some '\r'
  | 't' => some '\t'
  | _ => none

/-- The mode after a complete escaped code unit. -/
def afterCodeUnit (done : List Char) (high : Option Nat) (unit : Nat) : Option Mode :=
  let isHigh := 0xD800 ≤ unit && unit ≤ 0xDBFF
  let isLow := 0xDC00 ≤ unit && unit ≤ 0xDFFF
  match high with
  | none =>
    if isHigh then some (.paired done unit false)
    else if isLow then none
    else some (.quoted (Char.ofNat unit :: done))
  | some h =>
    if isLow then
      some (.quoted (Char.ofNat (0x10000 + (h - 0xD800) * 0x400 + (unit - 0xDC00)) :: done))
    else none

def step (scan : Scan) (c : Char) : Option Scan :=
  match scan.mode with
  | .between => stepBetween scan.done c
  | .scalar cs =>
    if isScalarChar c then some { scan with mode := .scalar (c :: cs) }
    else do
      let value ← scalar? cs.reverse
      stepBetween (.scalar value :: scan.done) c
  | .quoted cs =>
    if c = '"' then some ⟨.between, .text (String.ofList cs.reverse) :: scan.done⟩
    else if c = '\\' then some { scan with mode := .escaped cs }
    else if c.toNat < 0x20 then none
    else some { scan with mode := .quoted (c :: cs) }
  | .escaped cs =>
    if c = 'u' then some { scan with mode := .codeUnit cs none 4 0 }
    else (unescape? c).map fun e => { scan with mode := .quoted (e :: cs) }
  | .codeUnit cs high owed value => do
    let digit ← Datum.digitInBase? 16 c
    let next := 16 * value + digit
    let mode ← if owed ≤ 1 then afterCodeUnit cs high next
      else some (.codeUnit cs high (owed - 1) next)
    return { scan with mode }
  | .paired cs high backslash =>
    if backslash then
      if c = 'u' then some { scan with mode := .codeUnit cs (some high) 4 0 } else none
    else if c = '\\' then some { scan with mode := .paired cs high true }
    else none

/-- The tokens of a text, if it can be cut into tokens. -/
def scan? (cs : List Char) : Option (List Token) := do
  let last ← cs.foldlM step {}
  match last.mode with
  | .between => return last.done.reverse
  | .scalar unfinished => return (.scalar (← scalar? unfinished.reverse) :: last.done).reverse
  | _ => none

end Token

end ForgeSync.Json
