import ForgeSync.Datum
import ForgeSync.Text.Blank

/-!
# Deploy keys

A public key that may read a repository, or write to it. Forges keep the key as one line of an
`authorized_keys` file: the type, the key material and perhaps a comment, with blanks between
them. Reading such a line drops the comment.
-/

namespace ForgeSync

structure DeployKey where
  /-- The algorithm, for instance `ssh-ed25519`; it may be empty. -/
  keyType : String
  key : String
  writeAccess : Bool
  deriving DecidableEq, Repr, Inhabited

namespace DeployKey

/-- The key as a line: type and material with one space between them, or the material alone. -/
def authorizedKey (k : DeployKey) : String :=
  if k.keyType.isEmpty then k.key else k.keyType ++ " " ++ k.key

/-- The key on a line. A line of one word holds material without a type. -/
def ofAuthorizedKey (line : String) (writeAccess : Bool) : DeployKey :=
  let (first, rest) := Text.nextWord line.toList
  let (second, _) := Text.nextWord rest
  match second with
  | [] => ⟨"", String.ofList first, writeAccess⟩
  | _ => ⟨String.ofList first, String.ofList second, writeAccess⟩

theorem writeAccess_ofAuthorizedKey (line : String) (w : Bool) :
    (ofAuthorizedKey line w).writeAccess = w := by
  unfold ofAuthorizedKey
  dsimp only
  split <;> rfl

def encode (k : DeployKey) : Datum :=
  .map [("type", .text k.keyType), ("key", .text k.key), ("writeAccess", .bool k.writeAccess)]

def decode? (d : Datum) : Option DeployKey :=
  match d.fields? ["type", "key", "writeAccess"] with
  | some [keyType, key, writeAccess] => do
    return {
      keyType := ← Datum.required Datum.text? keyType
      key := ← Datum.required Datum.text? key
      writeAccess := ← Datum.defaulted false Datum.bool? writeAccess }
  | _ => none

theorem decode?_encode (k : DeployKey) : decode? k.encode = some k := rfl

end DeployKey

end ForgeSync
