import ForgeSync.Settings.Basic

/-!
# Reports

What a command tells when it has succeeded: lines for people, or data for programs. The members
of the data are in the order of their names.
-/

namespace ForgeSync.CommandLine

def boolText (b : Bool) : String :=
  if b then "true" else "false"

/-- The settings in force. -/
def settingsLines (s : Settings) : List String :=
  ["Configuration is valid",
    "  finalizer:            " ++ s.finalizer.getD "(disabled)",
    "  deletion protection:  " ++ boolText s.deletionProtection,
    "  deletion policy:      " ++ s.defaultDeletionPolicy.name,
    "  creation policy:      " ++ s.defaultCreationPolicy.name,
    "  gitlab:               " ++ toString s.client.requestsPerSecond ++ " req/s, " ++
      toString s.client.maxRetries ++ " retries",
    "  logging:              " ++ s.logging.level ++ " (" ++ s.logging.format ++ ")" ++
      s.logging.directory.elim "" (", file in " ++ ·)]

/-- The settings in force, as data. -/
def settingsData (s : Settings) : Datum :=
  .map [("default_creation_policy", .text s.defaultCreationPolicy.name),
    ("default_deletion_policy", .text s.defaultDeletionPolicy.name),
    ("deletion_protection", .bool s.deletionProtection),
    ("finalizer", Datum.ofOption .text s.finalizer),
    ("gitlab_max_retries", .ofNat s.client.maxRetries),
    ("gitlab_requests_per_second", .ofNat s.client.requestsPerSecond),
    ("log_dir", Datum.ofOption .text s.logging.directory),
    ("log_format", .text s.logging.format), ("log_level", .text s.logging.level),
    ("valid", .bool true)]

/-- What a pass has led to. -/
structure PassReport where
  kind : String
  object : String
  requeue : Bool
  phase : String
  url : Option String
  accessTokenUid : Option UInt64
  /-- Whether a new token was created. -/
  tokenMinted : Bool
  deriving DecidableEq, Repr, Inhabited

namespace PassReport

def lines (r : PassReport) : List String :=
  [r.kind ++ " " ++ r.object ++ " reconciled",
    "  phase: " ++ (if r.phase.isEmpty then "-" else r.phase)] ++
  (r.url.map ("  url: " ++ ·)).toList ++
  (r.accessTokenUid.map fun uid =>
    "  access token: " ++ toString uid.toNat ++
      (if r.tokenMinted then " (newly minted)" else "")).toList ++
  (if r.requeue then ["  requeue requested"] else [])

def encode (r : PassReport) : Datum :=
  .map [("access_token_uid", Datum.ofOption .ofWord r.accessTokenUid), ("kind", .text r.kind),
    ("object", .text r.object), ("phase", .text r.phase), ("requeue", .bool r.requeue),
    ("token_minted", .bool r.tokenMinted), ("url", Datum.ofOption .text r.url)]

end PassReport

/-- Lines as one text. -/
def joinLines (lines : List String) : String :=
  "\n".intercalate lines

end ForgeSync.CommandLine
