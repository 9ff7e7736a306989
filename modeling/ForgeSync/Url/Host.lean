import ForgeSync.Text.Decimal
import ForgeSync.Text.LowerCase
import ForgeSync.Text.Utf8
import ForgeSync.Url.Percent
import ForgeSync.Url.Punycode

/-!
# Hosts of addresses

A host is an address of one of two Internet protocols, or a name. In the schemes of the web a
name is put into lower case, and a host whose last label is a number must be an address; in every
other scheme a host is any text without a few separators.
-/

namespace ForgeSync.Url

/-- Why a text is no address. -/
inductive Fault where
  | emptyHost
  | invalidName
  | invalidHostCharacter
  | invalidIpv4
  | invalidIpv6
  | invalidPort
  | relative
  deriving DecidableEq, Repr, Inhabited

namespace Fault

def message : Fault → String
  | emptyHost => "empty host"
  | invalidName => "invalid international domain name"
  | invalidHostCharacter => "invalid domain character"
  | invalidIpv4 => "invalid IPv4 address"
  | invalidIpv6 => "invalid IPv6 address"
  | invalidPort => "invalid port number"
  | relative => "relative URL without a base"

end Fault

/-- The parts of a list between the elements that satisfy `p`. -/
def splitAtAll {α : Type} (p : α → Bool) : List α → List (List α)
  | [] => [[]]
  | a :: rest =>
    match splitAtAll p rest with
    | [] => [[]]
    | part :: parts => if p a then [] :: part :: parts else (a :: part) :: parts

/-! ## Numbers of the fourth version -/

/-- What a label of a numeric host denotes. -/
inductive Ipv4Part where
  | number (n : Nat)
  | tooLarge
  | noNumber

/-- A label in base ten, in base eight behind a zero, or in base sixteen behind `0x`. -/
def ipv4Part (label : List Char) : Ipv4Part :=
  let (base, digits) := match label with
    | '0' :: 'x' :: r => (16, r)
    | '0' :: 'X' :: r => (16, r)
    | '0' :: c :: r => (8, c :: r)
    | r => (10, r)
  if label.isEmpty then .noNumber
  else if digits.isEmpty then .number 0
  else
    match digits.foldlM (fun n c => ((hexValue? c).filter (· < base)).map (base * n + ·)) 0 with
    | none => .noNumber
    | some n => if n < Text.bound32 then .number n else .tooLarge

/-- Whether the last label of a name, not counting one empty label after it, is a number. -/
def endsInNumber (labels : List (List Char)) : Bool :=
  let isNumber (label : List Char) : Bool :=
    (!label.isEmpty && label.all Char.isDigit) ||
      (match ipv4Part label with
        | .noNumber => false
        | _ => true)
  match labels.reverse with
  | [] => false
  | [] :: label :: _ => isNumber label
  | [] :: [] => false
  | label :: _ => isNumber label

/-- The address that the labels of a host denote: the last one fills what the others leave. -/
def ipv4? (labels : List (List Char)) : Option Nat := do
  let labels := match labels.reverse with
    | [] :: rest => if rest.isEmpty then labels else rest.reverse
    | _ => labels
  if 4 < labels.length then failure
  let parts ← labels.mapM fun label =>
    match ipv4Part label with
    | .number n => some n
    | _ => none
  let last ← parts.getLast?
  let leading := parts.dropLast
  if 1 <<< (8 * (4 - leading.length)) ≤ last || leading.any (255 < ·) then failure
  return leading.zipIdx.foldl (fun total (n, index) => total + n <<< (8 * (3 - index))) last

/-- An address of the fourth version as four numbers. -/
def ipv4Text (address : Nat) : String :=
  ".".intercalate ([3, 2, 1, 0].map fun place => toString (address >>> (8 * place) % 256))

/-! ## Numbers of the sixth version -/

/-- A piece of at most four hexadecimal digits. -/
def ipv6Piece? (cs : List Char) : Option Nat :=
  if cs.isEmpty || 4 < cs.length then none
  else cs.foldlM (fun n c => (hexValue? c).map (16 * n + ·)) 0

/-- A number below 256 without a leading zero. -/
def ipv4Octet? (cs : List Char) : Option Nat :=
  match cs with
  | [] => none
  | '0' :: _ :: _ => none
  | _ => (Text.natOfDigits? cs).filter (· < 256)

/-- The two pieces that four dotted numbers stand for. -/
def ipv6Tail? (cs : List Char) : Option (List Nat) := do
  match splitAtAll (· = '.') cs with
  | [a, b, c, d] =>
    return [256 * (← ipv4Octet? a) + (← ipv4Octet? b), 256 * (← ipv4Octet? c) + (← ipv4Octet? d)]
  | _ => none

/-- The pieces of a sequence that is not compressed; the last one may be dotted. -/
def ipv6Pieces? (cs : List Char) : Option (List Nat) :=
  if cs.isEmpty then some []
  else
    let parts := splitAtAll (· = ':') cs
    match parts.getLast? with
    | none => none
    | some last =>
      if last.contains '.' then do
        return (← parts.dropLast.mapM ipv6Piece?) ++ (← ipv6Tail? last)
      else parts.mapM ipv6Piece?

/-- Splits at the first place where two colons stand together. -/
def splitDoubleColon : List Char → Option (List Char × List Char)
  | ':' :: ':' :: rest => some ([], rest)
  | c :: rest => (splitDoubleColon rest).map fun (before, after) => (c :: before, after)
  | [] => none

/-- The eight pieces of an address; two colons stand for at least one piece of zero. -/
def ipv6? (cs : List Char) : Option (List Nat) := do
  match splitDoubleColon cs with
  | none =>
    let pieces ← ipv6Pieces? cs
    if pieces.length = 8 then return pieces else none
  | some (before, after) =>
    let front ← ipv6Pieces? before
    let back ← ipv6Pieces? after
    if before.contains '.' || 8 < front.length + back.length + 1 then none
    else return front ++ List.replicate (8 - front.length - back.length) 0 ++ back

/-- Start and length of the first longest run of zeros of at least two pieces. -/
def longestZeroRun (pieces : List Nat) : Option (Nat × Nat) :=
  let runFrom (start : Nat) : Nat := ((pieces.drop start).takeWhile (· = 0)).length
  let best := (List.range pieces.length).foldl
    (fun (best : Nat × Nat) start =>
      if best.2 < runFrom start then (start, runFrom start) else best) (0, 0)
  if 2 ≤ best.2 then some best else none

/-- An address of the sixth version, between brackets. -/
def ipv6Text (pieces : List Nat) : String :=
  let shown (ps : List Nat) : String := ":".intercalate (ps.map Text.hexDigits)
  match longestZeroRun pieces with
  | none => "[" ++ shown pieces ++ "]"
  | some (start, length) =>
    "[" ++ shown (pieces.take start) ++ "::" ++ shown (pieces.drop (start + length)) ++ "]"

/-! ## Hosts -/

/-- Characters that no host holds. -/
def hostSeparators : List Char :=
  ['\x00', '\t', '\n', '\r', ' ', '#', '/', ':', '<', '>', '?', '@', '[', '\\', ']', '^', '|']

/-- Whether a name of the web may not hold a character. -/
def isForbiddenInName (c : Char) : Bool :=
  c.toNat ≤ 0x1F || c.toNat = 0x7F || c = '%' || hostSeparators.contains c

/-- A host between brackets. -/
def readBracketed (cs : List Char) : Except Fault String :=
  match cs.getLast? with
  | some ']' =>
    match ipv6? (cs.drop 1).dropLast with
    | some pieces => .ok (ipv6Text pieces)
    | none => .error .invalidIpv6
  | _ => .error .invalidIpv6

/-- A host in a scheme of the web. -/
def readWebHost (cs : List Char) : Except Fault String :=
  match cs with
  | '[' :: _ => readBracketed cs
  | _ =>
    let name := (Text.ofUtf8 (percentDecoded cs)).toList.map Text.toLower
    if name.any isForbiddenInName || name.contains Text.replacement then .error .invalidName
    else if name.isEmpty then .error .emptyHost
    else
      let labels := (splitAtAll (· = '.') name).map Punycode.encode
      if endsInNumber labels then
        match ipv4? labels with
        | some address => .ok (ipv4Text address)
        | none => .error .invalidIpv4
      else .ok (".".intercalate (labels.map String.ofList))

/-- A host in any other scheme; it may be empty. -/
def readPlainHost (cs : List Char) : Except Fault String :=
  match cs with
  | '[' :: _ => readBracketed cs
  | _ =>
    if cs.any hostSeparators.contains then .error .invalidHostCharacter
    else .ok (String.ofList (encodeChars [] cs))

end ForgeSync.Url
