/-!
# Labels beyond ASCII

A label of a host name that holds characters beyond ASCII is written in ASCII: first its ASCII
characters, then, in ascending order, where the others stand. Positions are written as numbers in
base 36 whose digits end themselves, with thresholds that follow the sizes seen so far.
-/

namespace ForgeSync.Url.Punycode

def base : Nat := 36

def digit (n : Nat) : Char :=
  if n < 26 then Char.ofNat ('a'.toNat + n) else Char.ofNat ('0'.toNat + (n - 26))

/-- The threshold at the place `k` for a bias. -/
def threshold (bias k : Nat) : Nat :=
  if k ≤ bias then 1 else min 26 (k - bias)

theorem threshold_pos (bias k : Nat) : 0 < threshold bias k := by
  unfold threshold
  split <;> omega

/-- A number whose digits end themselves. -/
def number (bias k q : Nat) : List Char :=
  let t := threshold bias k
  if q < t then [digit q]
  else digit (t + (q - t) % (base - t)) :: number bias (k + base) ((q - t) / (base - t))
termination_by q
decreasing_by
  have := threshold_pos bias k
  have : (q - threshold bias k) / (base - threshold bias k) ≤ q - threshold bias k :=
    Nat.div_le_self _ _
  omega

/-- Scales a distance down, counting the steps in places. -/
def scaled (delta k : Nat) : Nat × Nat :=
  if 455 < delta then scaled (delta / 35) (k + base) else (delta, k)
termination_by delta
decreasing_by omega

/-- The bias after a distance was written as the `count`th of its label. -/
def adapt (delta count : Nat) (isFirst : Bool) : Nat :=
  let halved := if isFirst then delta / 700 else delta / 2
  let (rest, k) := scaled (halved + halved / count) 0
  k + base * rest / (rest + 38)

structure Progress where
  written : List Char
  handled : Nat
  isFirst : Bool := true
  next : Nat := 128
  delta : Nat := 0
  bias : Nat := 72

/-- Writes all places at which one code point stands. -/
def place (label : List Char) (p : Progress) (point : Nat) : Progress :=
  let start := { p with delta := p.delta + (point - p.next) * (p.handled + 1), next := point }
  let swept := label.foldl
    (fun (p : Progress) c =>
      if c.toNat < point then { p with delta := p.delta + 1 }
      else if c.toNat = point then
        { p with
          written := p.written ++ number p.bias base p.delta
          bias := adapt p.delta (p.handled + 1) p.isFirst
          isFirst := false
          delta := 0
          handled := p.handled + 1 }
      else p)
    start
  { swept with delta := swept.delta + 1, next := point + 1 }

/-- A label in ASCII; a label that is ASCII already stays. -/
def encode (label : List Char) : List Char :=
  let isAscii (c : Char) : Bool := c.toNat < 128
  if label.all isAscii then label
  else
    let basic := label.filter isAscii
    let points := ((label.filter fun c => !isAscii c).map Char.toNat).mergeSort.eraseDups
    let start : Progress :=
      { written := if basic.isEmpty then [] else basic ++ ['-'], handled := basic.length }
    ['x', 'n', '-', '-'] ++ (points.foldl (place label) start).written

end ForgeSync.Url.Punycode
