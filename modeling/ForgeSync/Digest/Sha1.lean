/-!
# The digest SHA-1

A message is padded to blocks of 64 bytes; each block stirs a state of five words, and the last
state is the digest.
-/

namespace ForgeSync.Digest.Sha1

/-- The state: five words of 32 bits. -/
structure State where
  a : UInt32
  b : UInt32
  c : UInt32
  d : UInt32
  e : UInt32
  deriving DecidableEq, Repr

def initial : State :=
  ⟨0x67452301, 0xEFCDAB89, 0x98BADCFE, 0x10325476, 0xC3D2E1F0⟩

/-- Rotation to the left by `n` bits, for `n` between 1 and 31. -/
def rotate (n x : UInt32) : UInt32 :=
  (x <<< n) ||| (x >>> (32 - n))

/-- The eight bytes of a number, most significant first. -/
def bytes64 (n : Nat) : List UInt8 :=
  (List.range 8).map fun i => UInt8.ofNat (n >>> (8 * (7 - i)))

/-- The four bytes of a word, most significant first. -/
def bytes32 (w : UInt32) : List UInt8 :=
  (List.range 4).map fun i => UInt8.ofNat (w.toNat >>> (8 * (3 - i)))

/-- A message followed by a one bit, zeros, and its length in bits. -/
def pad (message : List UInt8) : List UInt8 :=
  message ++ 0x80 :: List.replicate ((119 - message.length % 64) % 64) 0 ++
    bytes64 (8 * message.length)

/-- Words of four bytes, most significant first. -/
def words : List UInt8 → List UInt32
  | a :: b :: c :: d :: rest =>
    (a.toUInt32 <<< 24 ||| b.toUInt32 <<< 16 ||| c.toUInt32 <<< 8 ||| d.toUInt32) :: words rest
  | _ => []

/-- The next word of a schedule whose last sixteen words are `recent`, latest first. -/
def scheduleWord (recent : Array UInt32) : UInt32 :=
  let back (i : Nat) := recent.getD (recent.size - i) 0
  rotate 1 (back 3 ^^^ back 8 ^^^ back 14 ^^^ back 16)

/-- The eighty words that a block of sixteen unfolds into. -/
def schedule (block : List UInt32) : Array UInt32 :=
  (List.range 64).foldl (fun words _ => words.push (scheduleWord words)) block.toArray

/-- One of the eighty rounds. -/
def round (s : State) (index : Nat) (w : UInt32) : State :=
  let (f, k) :=
    if index < 20 then ((s.b &&& s.c) ||| ((~~~ s.b) &&& s.d), 0x5A827999)
    else if index < 40 then (s.b ^^^ s.c ^^^ s.d, 0x6ED9EBA1)
    else if index < 60 then
      ((s.b &&& s.c) ||| (s.b &&& s.d) ||| (s.c &&& s.d), 0x8F1BBCDC)
    else (s.b ^^^ s.c ^^^ s.d, 0xCA62C1D6)
  ⟨rotate 5 s.a + f + s.e + k + w, s.a, rotate 30 s.b, s.c, s.d⟩

/-- The state after a block. -/
def compress (s : State) (block : List UInt32) : State :=
  let t := (schedule block).toList.zipIdx.foldl (fun t (w, index) => round t index w) s
  ⟨s.a + t.a, s.b + t.b, s.c + t.c, s.d + t.d, s.e + t.e⟩

/-- Blocks of sixteen words, at most `count` of them. -/
def blocks : Nat → List UInt32 → List (List UInt32)
  | 0, _ => []
  | count + 1, ws => ws.take 16 :: blocks count (ws.drop 16)

/-- The digest of a message: twenty bytes. -/
def digest (message : List UInt8) : List UInt8 :=
  let ws := words (pad message)
  let s := (blocks (ws.length / 16) ws).foldl compress initial
  [s.a, s.b, s.c, s.d, s.e].flatMap bytes32

end ForgeSync.Digest.Sha1
