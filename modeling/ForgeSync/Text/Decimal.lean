/-!
# Decimal numerals

Unsigned numerals as they stand in headers, page cursors and dates: digits only, read into a
number, and written with leading zeros up to a width.
-/

namespace ForgeSync.Text

/-- The value of a decimal digit. -/
def digitValue? (c : Char) : Option Nat :=
  if '0' ≤ c ∧ c ≤ '9' then some (c.toNat - '0'.toNat) else none

/-- The number that a list of digits denotes, most significant digit first. -/
def natOfDigits? (cs : List Char) : Option Nat :=
  cs.foldlM (fun n c => (digitValue? c).map (10 * n + ·)) 0

/-- A numeral of at least one digit, with an optional plus sign, that stays below `bound`. -/
def readBelow (bound : Nat) (cs : List Char) : Option Nat :=
  let digits := match cs with
    | '+' :: r => r
    | r => r
  match digits with
  | [] => none
  | _ => (natOfDigits? digits).filter (· < bound)

/-- The bound of a 64-bit word. -/
def bound64 : Nat := 0x10000000000000000

/-- The bound of the positive integers of 64 bits. -/
def bound63 : Nat := 0x8000000000000000

/-- The bound of a 32-bit word. -/
def bound32 : Nat := 0x100000000

/-- A number in decimal, with zeros in front up to `width` digits. -/
def padded (width n : Nat) : String :=
  let digits := toString n
  String.ofList (List.replicate (width - digits.length) '0') ++ digits

/-- The digits of a number in base sixteen, lower case, without leading zeros. -/
def hexDigits (n : Nat) : String :=
  String.ofList (Nat.toDigits 16 n)

end ForgeSync.Text
