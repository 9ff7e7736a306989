import ForgeSync.Text.Utf8

/-!
# Percent encoding

A character that a part of an address may not hold is written as its UTF-8 bytes, each as a
percent sign and two hexadecimal digits. What has to be encoded differs from part to part, but no
part may hold a control or a character beyond ASCII. Forms encode a text in a way of their own.
-/

namespace ForgeSync.Url

/-- A byte as a percent sign and two digits. -/
def percentByte (b : UInt8) : List Char :=
  let digit (n : Nat) : Char := (Nat.digitChar n).toUpper
  ['%', digit (b.toNat / 16), digit (b.toNat % 16)]

/-- Whether no part of an address holds a character as it is. -/
def isNeverPlain (c : Char) : Bool :=
  c.toNat ≤ 0x1F || 0x7F ≤ c.toNat

/-- A character, encoded if it is never plain or stands in `reserved`. -/
def encodeChar (reserved : List Char) (c : Char) : List Char :=
  if isNeverPlain c || reserved.contains c then (String.utf8EncodeChar c).flatMap percentByte
  else [c]

/-- A text, encoded character by character. -/
def encodeChars (reserved : List Char) (cs : List Char) : List Char :=
  cs.flatMap (encodeChar reserved)

/-! ## What each part reserves -/

def fragmentReserved : List Char := [' ', '"', '<', '>', '\x60']

def pathReserved : List Char := fragmentReserved ++ ['#', '?', '\x7b', '\x7d']

def userReserved : List Char :=
  pathReserved ++ ['/', ':', ';', '=', '@', '[', '\\', ']', '^', '|']

def queryReserved : List Char := [' ', '"', '#', '<', '>']

/-- A single segment of a path also reserves what parts it from its neighbours. -/
def segmentReserved (special : Bool) : List Char :=
  pathReserved ++ ['/', '%'] ++ (if special then ['\\'] else [])

/-! ## Decoding -/

def hexValue? (c : Char) : Option Nat :=
  if '0' ≤ c ∧ c ≤ '9' then some (c.toNat - '0'.toNat)
  else if 'a' ≤ c ∧ c ≤ 'f' then some (c.toNat - 'a'.toNat + 10)
  else if 'A' ≤ c ∧ c ≤ 'F' then some (c.toNat - 'A'.toNat + 10)
  else none

/-- The bytes of a text in which encoded bytes are decoded; a stray percent sign stays. -/
def percentDecoded : List Char → List UInt8
  | '%' :: a :: b :: rest =>
    match hexValue? a, hexValue? b with
    | some high, some low => UInt8.ofNat (16 * high + low) :: percentDecoded rest
    | _, _ => String.utf8EncodeChar '%' ++ percentDecoded (a :: b :: rest)
  | c :: rest => String.utf8EncodeChar c ++ percentDecoded rest
  | [] => []

/-! ## Forms -/

/-- A byte of a form field. -/
def formByte (b : UInt8) : List Char :=
  let c := Char.ofNat b.toNat
  if c = ' ' then ['+']
  else if b.toNat < 0x80 && (c.isAlphanum || c = '*' || c = '-' || c = '.' || c = '_') then [c]
  else percentByte b

/-- A name or value of a form field. -/
def formText (s : String) : String :=
  String.ofList ((Text.utf8 s).flatMap formByte)

end ForgeSync.Url
