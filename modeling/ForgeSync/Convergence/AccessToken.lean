import ForgeSync.Forge.Basic

/-!
# Selecting an access token

A token is usable while it works and for as long as it does not end soon. Where the last token of
a repository is known, only that one will do, because the secret of any other is lost; where none
is known, the one that ends last is taken. If there is no such token, a new one is created.
-/

namespace ForgeSync

open Calendar (Instant)

/-- A token that ends within so many days is not used any more. -/
def safetyMarginDays : Nat := 10

/-- For so many days a new token lasts. -/
def tokenLifetimeDays : Nat := 30

/-- What a new token allows. -/
def tokenScopes : List String := ["read_repository"]

/-- The access level of a new token: it may read, and report. -/
def tokenAccessLevel : Nat := 20

def isUsable (now : Instant) (t : AccessTokenRecord) : Bool :=
  t.active && !t.revoked && now.addDays safetyMarginDays < t.expiresAt

/-- The usable tokens, the one that ends last first; equals stay in their order. -/
def usableTokens (tokens : List AccessTokenRecord) (now : Instant) : List AccessTokenRecord :=
  (tokens.filter (isUsable now)).mergeSort fun a b => b.expiresAt ≤ a.expiresAt

/-- The token to go on with, among the usable ones. -/
def selectToken (usable : List AccessTokenRecord) (hint : Option UInt64) :
    Option AccessTokenRecord :=
  match hint with
  | none => usable.head?
  | some uid => usable.find? (·.uid = uid)

/-- The new token that is asked for. -/
def newToken (name : String) (now : Instant) : NewAccessToken where
  name
  scopes := tokenScopes
  accessLevel := tokenAccessLevel
  expiresAt := now.addDays tokenLifetimeDays

/-- Selects a token of a repository, or creates one. -/
def Forge.ensureAccessToken {σ : Type} (forge : Forge σ) (now : Instant) (path name : String)
    (hint : Option UInt64) : Act σ AccessTokenGrant := do
  let usable := usableTokens (← forge.listAccessTokens path) now
  match selectToken usable hint with
  | some token => return ⟨token.uid, token.expiresAt, none⟩
  | none =>
    let created ← forge.createAccessToken path (newToken name now)
    match created.token with
    | some secret => return ⟨created.uid, created.expiresAt, some secret⟩
    | none =>
      throw (.provider ("access token " ++ toString created.uid.toNat ++ " for " ++ path ++
        " was created without a secret"))

end ForgeSync
