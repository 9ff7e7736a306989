import Std.Data.ExtTreeMap
import ForgeSync.Text.Decimal

/-!
# Data read from text

The one shape into which every text format of the library is read, and from which values of the
domain are decoded. Three formats meet here and they differ in what a reader may conclude from a
scalar, so the differences are constructors and not flags:

* a `plain` scalar stands unquoted in a block format; whether it is a text, a number, a truth
  value or nothing is decided by the field that reads it;
* a `list` may stand for a record, given by its fields in order, and a `series` may not;
* members of a `map` keep their order and their repetitions.

Main statements: `fields?` gives one entry per field name, and `texts?` undoes `ofTexts`.
-/

namespace ForgeSync

/-- A table whose keys are listed in the order of their code points. -/
abbrev Table (α : Type) := Std.ExtTreeMap String α

inductive Datum where
  | null
  | bool (value : Bool)
  | int (value : Int)
  /-- A number that is not an integer, by its numeral. -/
  | real (numeral : String)
  | text (value : String)
  /-- A scalar without quotes, read as its field wants it. -/
  | plain (scalar : String)
  | list (items : List Datum)
  /-- A sequence that cannot stand for a record. -/
  | series (items : List Datum)
  | map (members : List (String × Datum))
  deriving Inhabited, Repr

namespace Datum

/-! ## Plain scalars -/

/-- The spellings of nothing. -/
def nullWords : List String := ["~", "null", "Null", "NULL"]

/-- The truth value that a plain scalar spells. -/
def boolOfPlain? (s : String) : Option Bool :=
  if s = "true" ∨ s = "True" ∨ s = "TRUE" then some true
  else if s = "false" ∨ s = "False" ∨ s = "FALSE" then some false
  else none

/-- The value of a digit in a base up to sixteen. -/
def digitInBase? (base : Nat) (c : Char) : Option Nat :=
  let value :=
    if '0' ≤ c ∧ c ≤ '9' then some (c.toNat - '0'.toNat)
    else if 'a' ≤ c ∧ c ≤ 'f' then some (c.toNat - 'a'.toNat + 10)
    else if 'A' ≤ c ∧ c ≤ 'F' then some (c.toNat - 'A'.toNat + 10)
    else none
  value.filter (· < base)

/-- The number that digits denote in a base; at least one digit is wanted. -/
def natInBase? (base : Nat) (digits : List Char) : Option Nat :=
  match digits with
  | [] => none
  | _ => digits.foldlM (fun n c => (digitInBase? base c).map (base * n + ·)) 0

/-- The magnitude of an integer scalar: in base ten without a superfluous leading zero, or in
another base behind `0x`, `0o` or `0b`. -/
def magnitude? (cs : List Char) : Option Nat :=
  match cs with
  | '0' :: 'x' :: r => natInBase? 16 r
  | '0' :: 'o' :: r => natInBase? 8 r
  | '0' :: 'b' :: r => natInBase? 2 r
  | '0' :: _ :: _ => none
  | r => natInBase? 10 r

/-- The integer that a plain scalar spells. -/
def intOfPlain? (s : String) : Option Int :=
  match s.toList with
  | '-' :: r => (magnitude? r).map fun n => -Int.ofNat n
  | '+' :: r => (magnitude? r).map Int.ofNat
  | r => (magnitude? r).map Int.ofNat

/-- Digits, then perhaps a fraction, then perhaps an exponent, with digits before or after the
point. -/
def isRealNumeral (cs : List Char) : Bool :=
  let whole := cs.takeWhile Char.isDigit
  let afterWhole := cs.dropWhile Char.isDigit
  let (fraction, afterFraction) := match afterWhole with
    | '.' :: r => (r.takeWhile Char.isDigit, r.dropWhile Char.isDigit)
    | r => ([], r)
  let exponentOk := match afterFraction with
    | [] => true
    | c :: r =>
      (c = 'e' ∨ c = 'E') &&
        (let digits := match r with
          | '+' :: d => d
          | '-' :: d => d
          | d => d
         !digits.isEmpty && digits.all Char.isDigit)
  (!whole.isEmpty || !fraction.isEmpty) && exponentOk

/-- Whether a plain scalar spells a number that is not an integer. -/
def isRealPlain (s : String) : Bool :=
  let unsigned := match s.toList with
    | '-' :: r => r
    | '+' :: r => r
    | r => r
  let zeroLed := match unsigned with
    | '0' :: r => !r.isEmpty && r.all Char.isDigit
    | _ => false
  let named := [".inf", ".Inf", ".INF", ".nan", ".NaN", ".NAN"].map String.toList
  !zeroLed && (named.contains unsigned || isRealNumeral unsigned)

/-- What a plain scalar is when no field has a say. -/
def resolvePlain (s : String) : Datum :=
  if s = "" ∨ s ∈ nullWords then .null
  else match boolOfPlain? s with
    | some b => .bool b
    | none => match intOfPlain? s with
      | some i => .int i
      | none => if isRealPlain s then .real s else .text s

/-! ## Reading -/

/-- A text; a plain scalar is taken as it is spelled. -/
def text? : Datum → Option String
  | .text s => some s
  | .plain s => some s
  | _ => none

def bool? : Datum → Option Bool
  | .bool b => some b
  | .plain s => boolOfPlain? s
  | _ => none

def int? : Datum → Option Int
  | .int i => some i
  | .plain s => intOfPlain? s
  | _ => none

/-- A natural number below `bound`. -/
def natBelow? (bound : Nat) (d : Datum) : Option Nat :=
  match d.int? with
  | some (.ofNat n) => if n < bound then some n else none
  | _ => none

def word64? (d : Datum) : Option UInt64 :=
  (d.natBelow? Text.bound64).map UInt64.ofNat

def isNull : Datum → Bool
  | .null => true
  | .plain s => s = "" ∨ s ∈ nullWords
  | _ => false

/-- A value that may be null. -/
def optional? {α : Type} (decode : Datum → Option α) (d : Datum) : Option (Option α) :=
  if d.isNull then some none else (decode d).map some

/-- The items of a sequence. -/
def items? : Datum → Option (List Datum)
  | .list items => some items
  | .series items => some items
  | .plain "" => some []
  | _ => none

def listOf? {α : Type} (decode : Datum → Option α) (d : Datum) : Option (List α) :=
  d.items? >>= List.mapM decode

/-- The members of a map, in order and with their repetitions. -/
def members? : Datum → Option (List (String × Datum))
  | .map members => some members
  | .plain "" => some []
  | _ => none

/-- A table, in which the last of several members with one key counts. -/
def tableOf? {α : Type} (decode : Datum → Option α) (d : Datum) : Option (Table α) := do
  let members ← d.members?
  let entries ← members.mapM fun (key, value) => (decode value).map (key, ·)
  return entries.foldl (fun table (key, value) => table.insert key value) ∅

/-- The member of a key. -/
def lookup? (members : List (String × Datum)) (key : String) : Option Datum :=
  (members.find? (·.1 = key)).map (·.2)

/-- The fields of a record in the order of `names`: a map in which no field is given twice, or a
list of the leading fields. -/
def fields? (names : List String) : Datum → Option (List (Option Datum))
  | .map members =>
    if names.all fun name => members.countP (·.1 = name) ≤ 1 then
      some (names.map (lookup? members))
    else none
  | .list items =>
    if items.length ≤ names.length then
      some (items.map some ++ List.replicate (names.length - items.length) none)
    else none
  | .plain "" => some (names.map fun _ => none)
  | _ => none

/-- A field that must be given. -/
def required {α : Type} (decode : Datum → Option α) (field : Option Datum) : Option α :=
  field >>= decode

/-- A field with a default; null is no value of it. -/
def defaulted {α : Type} (default : α) (decode : Datum → Option α) (field : Option Datum) :
    Option α :=
  match field with
  | none => some default
  | some d => decode d

/-- A field that may be absent or null. -/
def option {α : Type} (decode : Datum → Option α) (field : Option Datum) : Option (Option α) :=
  match field with
  | none => some none
  | some d => d.optional? decode

/-- The name of a variant without content: a text, or a map of the name to null. -/
def variant? : Datum → Option String
  | .text s => some s
  | .plain s => some s
  | .map [(name, .null)] => some name
  | _ => none

/-! ## Writing -/

/-- A list of texts. -/
def ofTexts (texts : List String) : Datum :=
  .list (texts.map .text)

/-- A list of texts, read back. -/
def texts? : Datum → Option (List String) :=
  listOf? text?

theorem texts?_ofTexts (texts : List String) : texts? (ofTexts texts) = some texts := by
  simp only [texts?, ofTexts, listOf?, items?, Option.bind_eq_bind, Option.bind_some]
  induction texts with
  | nil => rfl
  | cons t rest ih =>
    simp only [List.map_cons, List.mapM_cons, text?, Option.bind_eq_bind, Option.bind_some, ih]
    rfl

/-- A table as a map in the order of its keys. -/
def ofTable {α : Type} (encode : α → Datum) (table : Table α) : Datum :=
  .map (table.toList.map fun (key, value) => (key, encode value))

def ofNat (n : Nat) : Datum :=
  .int (Int.ofNat n)

def ofWord (n : UInt64) : Datum :=
  .ofNat n.toNat

def ofOption {α : Type} (encode : α → Datum) : Option α → Datum
  | none => .null
  | some a => encode a

/-- A member that is left out when the value is absent. -/
def memberIfSome {α : Type} (name : String) (encode : α → Datum) (value : Option α) :
    List (String × Datum) :=
  match value with
  | none => []
  | some a => [(name, encode a)]

mutual

/-- Every repeated key of a map is reduced to its last member. -/
def lastMembers : Datum → Datum
  | .list items => .list (lastMembersList items)
  | .series items => .series (lastMembersList items)
  | .map members => .map (lastMembersMap members)
  | d => d

def lastMembersList : List Datum → List Datum
  | [] => []
  | d :: rest => d.lastMembers :: lastMembersList rest

def lastMembersMap : List (String × Datum) → List (String × Datum)
  | [] => []
  | (key, value) :: rest =>
    if rest.any (·.1 = key) then lastMembersMap rest
    else (key, value.lastMembers) :: lastMembersMap rest

end

end Datum

end ForgeSync
