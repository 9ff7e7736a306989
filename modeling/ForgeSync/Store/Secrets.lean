import ForgeSync.Forge.AccessToken
import ForgeSync.Owner.Basic

/-!
# Secrets and the vault

Where the connection secrets come from, and where the secrets of new access tokens go. Both are
tables: secrets by namespace and name, tokens by the path of their repository. The vault keeps the
latest token of each path.
-/

namespace ForgeSync

structure SecretSource where
  secrets : Table (Table String) := ∅
  deriving DecidableEq, Inhabited

namespace SecretSource

def get? (source : SecretSource) (space name : String) : Option (Table String) :=
  source.secrets[storeKey space name]?

def insert (source : SecretSource) (space name : String) (data : Table String) : SecretSource :=
  ⟨source.secrets.insert (storeKey space name) data⟩

def remove (source : SecretSource) (space name : String) : SecretSource :=
  ⟨source.secrets.erase (storeKey space name)⟩

end SecretSource

/-- A token that the vault keeps. -/
structure StoredToken where
  uid : UInt64
  token : String
  deriving DecidableEq, Repr, Inhabited

structure TokenVault where
  tokens : Table StoredToken := ∅
  deriving DecidableEq, Inhabited

namespace TokenVault

def get? (vault : TokenVault) (path : String) : Option StoredToken :=
  vault.tokens[path]?

def size (vault : TokenVault) : Nat :=
  vault.tokens.size

def isEmpty (vault : TokenVault) : Bool :=
  vault.tokens.isEmpty

/-- Keeps the secret of a granted token. -/
def store (vault : TokenVault) (path : String) (grant : AccessTokenGrant) (token : String) :
    TokenVault :=
  ⟨vault.tokens.insert path ⟨grant.uid, token⟩⟩

end TokenVault

end ForgeSync
