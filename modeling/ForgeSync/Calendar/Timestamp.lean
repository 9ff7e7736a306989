import ForgeSync.Calendar.Instant
import ForgeSync.Datum
import ForgeSync.Text.Blank
import ForgeSync.Text.Decimal

/-!
# Instants and dates as text

An instant is written in universal time, with as many digits of the second's fraction as it
takes: none, three, six or nine. Reading is laxer. Blanks may stand before each number and around
the separators, the date and the time are parted by a `T` or a space, years outside four digits
carry a sign, digits of the fraction beyond the ninth are dropped, and any offset below a day is
taken off.
-/

namespace ForgeSync.Calendar

open Text

/-! ## Writing -/

/-- A year of four digits, or a sign and at least that many. -/
def yearText (year : Int) : String :=
  match year with
  | .ofNat n => if n ≤ 9999 then padded 4 n else "+" ++ padded 4 n
  | .negSucc n => "-" ++ padded 4 (n + 1)

def Civil.text (c : Civil) : String :=
  yearText c.year ++ "-" ++ padded 2 c.month ++ "-" ++ padded 2 c.day

/-- The fraction of a second, in as few groups of three digits as lose nothing. -/
def fractionText (nanos : Nat) : String :=
  if nanos = 0 then ""
  else if nanos % 1000000 = 0 then "." ++ padded 3 (nanos / 1000000)
  else if nanos % 1000 = 0 then "." ++ padded 6 (nanos / 1000)
  else "." ++ padded 9 nanos

namespace Instant

/-- An instant in universal time. -/
def text (t : Instant) : String :=
  let ofDay := (t.second % secondsPerDay).toNat
  t.date.text ++ "T" ++ padded 2 (ofDay / 3600) ++ ":" ++ padded 2 (ofDay / 60 % 60) ++ ":" ++
    padded 2 (ofDay % 60 + t.nanos / nanosPerSecond) ++
    fractionText (t.nanos % nanosPerSecond) ++ "Z"

end Instant

/-! ## Reading

Each reader takes something off the front of a text and returns the rest.
-/

/-- At least one and at most `width` digits. -/
def takeNumber? (width : Nat) (cs : List Char) : Option (Nat × List Char) :=
  let digits := (cs.take width).takeWhile Char.isDigit
  match digits with
  | [] => none
  | _ => (natOfDigits? digits).map fun n => (n, cs.drop digits.length)

/-- A number of at most two digits, after blanks. -/
def takePart? (cs : List Char) : Option (Nat × List Char) :=
  takeNumber? 2 (cs.dropWhile isBlank)

/-- A year of at most four digits, or with a sign of any length, after blanks. -/
def takeYear? (cs : List Char) : Option (Int × List Char) :=
  match cs.dropWhile isBlank with
  | '-' :: r => (takeNumber? r.length r).map fun (n, rest) => (-Int.ofNat n, rest)
  | '+' :: r => (takeNumber? r.length r).map fun (n, rest) => (Int.ofNat n, rest)
  | r => (takeNumber? 4 r).map fun (n, rest) => (Int.ofNat n, rest)

/-- A separator, after blanks. -/
def takeSeparator? (c : Char) (cs : List Char) : Option (List Char) :=
  match cs.dropWhile isBlank with
  | d :: r => if d = c then some r else none
  | [] => none

/-- Year, month and day that name a date. -/
def takeDate? (cs : List Char) : Option (Civil × List Char) := do
  let (year, r) ← takeYear? cs
  let r ← takeSeparator? '-' r
  let (month, r) ← takePart? r
  let r ← takeSeparator? '-' r
  let (day, r) ← takePart? r
  return (⟨year, month, day⟩, r)

/-- The digits after a point as nanoseconds; those beyond the ninth are dropped. -/
def takeFraction? (cs : List Char) : Option (Nat × List Char) :=
  match cs with
  | '.' :: r => do
    let (n, rest) ← takeNumber? 9 r
    let digits := r.length - rest.length
    return (n * Nat.pow 10 (9 - digits), rest.dropWhile Char.isDigit)
  | r => some (0, r)

/-- A digit below `bound`. -/
def digitBelow? (bound : Nat) (c : Char) : Option Nat :=
  (digitValue? c).filter (· < bound)

/-- The seconds by which a local time is ahead of universal time. -/
def takeOffset? (cs : List Char) : Option (Int × List Char) :=
  let signed (sign : Int) (r : List Char) : Option (Int × List Char) :=
    match r with
    | a :: b :: rest => do
      let hours := 10 * (← digitValue? a) + (← digitValue? b)
      match rest.dropWhile fun c => c = ':' || isBlank c with
      | c :: d :: rest => do
        let minutes := 10 * (← digitBelow? 6 c) + (← digitValue? d)
        return (sign * Int.ofNat (3600 * hours + 60 * minutes), rest)
      | _ => none
    | _ => none
  match cs with
  | 'Z' :: r => some (0, r)
  | 'z' :: r => some (0, r)
  | '+' :: r => signed 1 r
  | '-' :: r => signed (-1) r
  | '\u2212' :: r => signed (-1) r
  | a :: b :: c :: r =>
    if [a, b, c].map Char.toUpper = ['U', 'T', 'C'] then some (0, r) else none
  | _ => none

/-- The instant that a text names. -/
def Instant.read? (s : String) : Option Instant := do
  let (date, r) ← takeDate? s.toList
  let r ← match r with
    | 'T' :: r => some r
    | 't' :: r => some r
    | ' ' :: r => some r
    | _ => none
  let (hour, r) ← takePart? r
  let r ← takeSeparator? ':' r
  let (minute, r) ← takePart? r
  let r ← takeSeparator? ':' r
  let (second, r) ← takePart? r
  let (fraction, r) ← takeFraction? r
  let (offset, r) ← takeOffset? (r.dropWhile isBlank)
  let isValid := date.isValid && hour ≤ 23 && minute ≤ 59 && second ≤ 60 && r.all isBlank &&
    offset.natAbs < 86400
  if !isValid then none
  else
    let isLeap := second = 60
    let ofDay := 3600 * hour + 60 * minute + (if isLeap then 59 else second)
    let instant : Instant :=
      ⟨date.toDays * Instant.secondsPerDay + Int.ofNat ofDay - offset,
        fraction + (if isLeap then Instant.nanosPerSecond else 0)⟩
    if instant.date.isValid then some instant else none

/-- The date that a text names. -/
def Civil.read? (s : String) : Option Civil := do
  let (date, r) ← takeDate? s.toList
  if date.isValid && r.all isBlank then some date else none

/-! ## As data -/

def Instant.encode (t : Instant) : Datum :=
  .text t.text

def Instant.decode? (d : Datum) : Option Instant :=
  d.text? >>= Instant.read?

end ForgeSync.Calendar
