/-!
# Reading bytes as text

UTF-8 bytes are read one at a time. Where they do not fit, every longest piece that could have
begun a character becomes one replacement character, and reading goes on with the byte that did
not fit.

Main statement: plain ASCII bytes are read as themselves.
-/

namespace ForgeSync.Text

/-- What stands for bytes that are no character. -/
def replacement : Char := '\ufffd'

/-- The bytes of a character that has begun: its number so far, how many bytes it still lacks,
and the range of the next one. -/
structure Utf8Pending where
  value : Nat
  owed : Nat
  low : Nat := 0x80
  high : Nat := 0xBF

/-- A reader between two bytes, with the characters read so far in reverse. -/
structure Utf8Scan where
  pending : Option Utf8Pending := none
  done : List Char := []

namespace Utf8Scan

/-- A byte where a character begins. -/
def start (done : List Char) (b : Nat) : Utf8Scan :=
  if b < 0x80 then ⟨none, Char.ofNat b :: done⟩
  else if 0xC2 ≤ b ∧ b ≤ 0xDF then ⟨some { value := b - 0xC0, owed := 1 }, done⟩
  else if b = 0xE0 then ⟨some { value := 0, owed := 2, low := 0xA0 }, done⟩
  else if b = 0xED then ⟨some { value := 0xD, owed := 2, high := 0x9F }, done⟩
  else if 0xE1 ≤ b ∧ b ≤ 0xEF then ⟨some { value := b - 0xE0, owed := 2 }, done⟩
  else if b = 0xF0 then ⟨some { value := 0, owed := 3, low := 0x90 }, done⟩
  else if 0xF1 ≤ b ∧ b ≤ 0xF3 then ⟨some { value := b - 0xF0, owed := 3 }, done⟩
  else if b = 0xF4 then ⟨some { value := 4, owed := 3, high := 0x8F }, done⟩
  else ⟨none, replacement :: done⟩

def step (scan : Utf8Scan) (byte : UInt8) : Utf8Scan :=
  let b := byte.toNat
  match scan.pending with
  | none => start scan.done b
  | some p =>
    if p.low ≤ b ∧ b ≤ p.high then
      let value := 64 * p.value + (b - 0x80)
      if p.owed ≤ 1 then ⟨none, Char.ofNat value :: scan.done⟩
      else ⟨some { value, owed := p.owed - 1 }, scan.done⟩
    else start (replacement :: scan.done) b

/-- The text that was read, when no byte follows. -/
def finish (scan : Utf8Scan) : String :=
  match scan.pending with
  | none => String.ofList scan.done.reverse
  | some _ => String.ofList (replacement :: scan.done).reverse

end Utf8Scan

/-- Bytes as a text, whatever they are. -/
def ofUtf8 (bytes : List UInt8) : String :=
  (bytes.foldl Utf8Scan.step {}).finish

/-- The bytes of a text. -/
def utf8 (s : String) : List UInt8 :=
  s.toList.flatMap String.utf8EncodeChar

end ForgeSync.Text
