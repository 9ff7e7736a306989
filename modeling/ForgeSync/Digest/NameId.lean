import ForgeSync.Digest.Sha1

/-!
# Identifiers made from names

A universally unique identifier of version 5: the SHA-1 digest of a name space and a name, cut to
sixteen bytes, with the version and the variant set.
-/

namespace ForgeSync.Digest

/-- The name space of object identifiers. -/
def objectIdSpace : List UInt8 :=
  [0x6b, 0xa7, 0xb8, 0x12, 0x9d, 0xad, 0x11, 0xd1, 0x80, 0xb4, 0x00, 0xc0, 0x4f, 0xd4, 0x30, 0xc8]

/-- The sixteen bytes of the identifier of a name within a name space. -/
def nameIdBytes (space name : List UInt8) : List UInt8 :=
  ((Sha1.digest (space ++ name)).take 16).zipIdx.map fun (b, index) =>
    if index = 6 then (b &&& 0x0F) ||| 0x50
    else if index = 8 then (b &&& 0x3F) ||| 0x80
    else b

def hexByte (b : UInt8) : String :=
  String.ofList [Nat.digitChar (b.toNat / 16), Nat.digitChar (b.toNat % 16)]

/-- Sixteen bytes as hexadecimal digits in groups of 8, 4, 4, 4 and 12. -/
def groupedHex (bytes : List UInt8) : String :=
  let part (start count : Nat) := String.join (((bytes.drop start).take count).map hexByte)
  "-".intercalate [part 0 4, part 4 2, part 6 2, part 8 2, part 10 6]

/-- The identifier of a name within a name space. -/
def nameId (space name : List UInt8) : String :=
  groupedHex (nameIdBytes space name)

end ForgeSync.Digest
