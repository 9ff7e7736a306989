/-!
# Blank characters

White space in the sense of the Unicode property `White_Space`, and the two cuts that the
library makes with it: taking blanks off the ends of a text, and taking the next word off the
front of a line. A word never holds a blank, and what precedes it in the line is blank.
-/

namespace ForgeSync.Text

/-- The characters with the Unicode property `White_Space`. -/
def isBlank (c : Char) : Bool :=
  let n := c.toNat
  (9 ≤ n && n ≤ 13) || n == 0x20 || n == 0x85 || n == 0xA0 || n == 0x1680 ||
    (0x2000 ≤ n && n ≤ 0x200A) || n == 0x2028 || n == 0x2029 || n == 0x202F || n == 0x205F ||
    n == 0x3000

/-- Drops the leading characters that satisfy `p`. -/
def trimStartOf (p : Char → Bool) (s : String) : String :=
  String.ofList (s.toList.dropWhile p)

/-- Drops the trailing characters that satisfy `p`. -/
def trimEndOf (p : Char → Bool) (s : String) : String :=
  String.ofList (s.toList.reverse.dropWhile p).reverse

/-- Drops the characters that satisfy `p` at both ends. -/
def trimOf (p : Char → Bool) (s : String) : String :=
  trimEndOf p (trimStartOf p s)

/-- Drops the blanks at both ends. -/
def trim (s : String) : String :=
  trimOf isBlank s

/-- Whether a text holds nothing but blanks. -/
def isBlankText (s : String) : Bool :=
  s.toList.all isBlank

/-- The next word of a line and what follows it; the word is empty where no word is left. -/
def nextWord (line : List Char) : List Char × List Char :=
  let rest := line.dropWhile isBlank
  (rest.takeWhile fun c => !isBlank c, rest.dropWhile fun c => !isBlank c)

theorem isBlank_nextWord {line : List Char} {c : Char} (h : c ∈ (nextWord line).1) :
    isBlank c = false := by
  have all := List.all_takeWhile (p := fun c => !isBlank c) (l := line.dropWhile isBlank)
  simpa using List.all_eq_true.mp all c h

/-- A line is its leading blanks, its next word and the rest. -/
theorem takeWhile_append_nextWord (line : List Char) :
    line.takeWhile isBlank ++ ((nextWord line).1 ++ (nextWord line).2) = line := by
  simp [nextWord, List.takeWhile_append_dropWhile]

end ForgeSync.Text
