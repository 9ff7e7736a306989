import ForgeSync.Calendar.Timestamp
import ForgeSync.Datum

/-!
# Access tokens of a repository

A forge shows the secret of a token once, in the answer that creates it. Every later listing tells
only when the token ends and whether it still works.
-/

namespace ForgeSync

open Calendar (Instant)

/-- A token as a forge lists it, or as it has just created it. -/
structure AccessTokenRecord where
  uid : UInt64
  name : String
  active : Bool
  revoked : Bool
  expiresAt : Instant
  scopes : List String := []
  /-- The secret, in the answer that created the token. -/
  token : Option String := none
  deriving DecidableEq, Repr, Inhabited

namespace AccessTokenRecord

def encode (t : AccessTokenRecord) : Datum :=
  .map (
    [("uid", .ofWord t.uid), ("name", .text t.name), ("active", .bool t.active),
      ("revoked", .bool t.revoked), ("expires_at", t.expiresAt.encode),
      ("scopes", Datum.ofTexts t.scopes)] ++
    Datum.memberIfSome "token" .text t.token)

def fieldNames : List String :=
  ["uid", "name", "active", "revoked", "expires_at", "scopes", "token"]

def decode? (d : Datum) : Option AccessTokenRecord :=
  match d.fields? fieldNames with
  | some [uid, name, active, revoked, expiresAt, scopes, token] => do
    return {
      uid := ← Datum.required Datum.word64? uid
      name := ← Datum.required Datum.text? name
      active := ← Datum.required Datum.bool? active
      revoked := ← Datum.required Datum.bool? revoked
      expiresAt := ← Datum.required Instant.decode? expiresAt
      scopes := ← Datum.defaulted [] Datum.texts? scopes
      token := ← Datum.option Datum.text? token }
  | _ => none

end AccessTokenRecord

/-- What is asked for when a token is created. -/
structure NewAccessToken where
  name : String
  scopes : List String
  accessLevel : Nat
  expiresAt : Instant
  deriving DecidableEq, Repr, Inhabited

/-- The token that a repository is given. -/
structure AccessTokenGrant where
  uid : UInt64
  expiresAt : Instant
  /-- The secret of a token that was created for this grant. -/
  token : Option String
  deriving DecidableEq, Repr, Inhabited

def NewAccessToken.encode (r : NewAccessToken) : Datum :=
  .map [("name", .text r.name), ("scopes", Datum.ofTexts r.scopes),
    ("access_level", .ofNat r.accessLevel), ("expires_at", r.expiresAt.encode)]

def AccessTokenGrant.encode (g : AccessTokenGrant) : Datum :=
  .map [("uid", .ofWord g.uid), ("expires_at", g.expiresAt.encode),
    ("token", Datum.ofOption .text g.token)]

end ForgeSync
