import ForgeSync.Datum
import ForgeSync.Repository.Policy
import ForgeSync.Text.Blank

/-!
# Settings

What a process is told about its own behaviour. Every setting has a default, so an empty document
is one. Whether settings make sense is asked separately: a document that can be read may still be
refused.

Main statement: `validate_default` says that the defaults are accepted.
-/

namespace ForgeSync

/-- How a forge is called. -/
structure ClientSettings where
  timeoutSecs : Nat := 30
  requestsPerSecond : Nat := 10
  /-- How often a request that met a passing failure is sent again. -/
  maxRetries : Nat := 3
  initialBackoffMs : Nat := 500
  maxBackoffMs : Nat := 10000
  deriving DecidableEq, Repr, Inhabited

structure LoggingSettings where
  level : String := "info"
  format : String := "json"
  /-- The directory of log files, if there shall be any. -/
  directory : Option String := none
  deriving DecidableEq, Repr, Inhabited

/-- The finalizer that keeps an object until its repository was dealt with. -/
def defaultFinalizerName : String := "repokeeper.io/finalizer"

structure Settings where
  /-- A blank name means that no finalizer is used. -/
  finalizerName : String := defaultFinalizerName
  /-- Whether new objects are protected against deletion. -/
  deletionProtection : Bool := true
  defaultDeletionPolicy : DeletionPolicy := .retain
  defaultCreationPolicy : CreationPolicy := .create
  client : ClientSettings := {}
  logging : LoggingSettings := {}
  deriving DecidableEq, Repr, Inhabited

namespace Settings

/-- The finalizer in use. -/
def finalizer (s : Settings) : Option String :=
  let name := Text.trim s.finalizerName
  if name.isEmpty then none else some name

end Settings

/-! ## As data -/

namespace ClientSettings

def encode (c : ClientSettings) : Datum :=
  .map [("timeout_secs", .ofNat c.timeoutSecs), ("requests_per_second", .ofNat c.requestsPerSecond),
    ("max_retries", .ofNat c.maxRetries), ("initial_backoff_ms", .ofNat c.initialBackoffMs),
    ("max_backoff_ms", .ofNat c.maxBackoffMs)]

def fieldNames : List String :=
  ["timeout_secs", "requests_per_second", "max_retries", "initial_backoff_ms", "max_backoff_ms"]

def decode? (d : Datum) : Option ClientSettings :=
  let word32 := Datum.natBelow? Text.bound32
  let word64 := Datum.natBelow? Text.bound64
  match d.fields? fieldNames with
  | some [timeoutSecs, requestsPerSecond, maxRetries, initialBackoffMs, maxBackoffMs] => do
    return {
      timeoutSecs := ← Datum.defaulted 30 word64 timeoutSecs
      requestsPerSecond := ← Datum.defaulted 10 word32 requestsPerSecond
      maxRetries := ← Datum.defaulted 3 word32 maxRetries
      initialBackoffMs := ← Datum.defaulted 500 word64 initialBackoffMs
      maxBackoffMs := ← Datum.defaulted 10000 word64 maxBackoffMs }
  | _ => none

end ClientSettings

namespace LoggingSettings

def encode (l : LoggingSettings) : Datum :=
  .map [("level", .text l.level), ("format", .text l.format),
    ("log_dir", Datum.ofOption .text l.directory)]

def decode? (d : Datum) : Option LoggingSettings :=
  match d.fields? ["level", "format", "log_dir"] with
  | some [level, format, directory] => do
    return {
      level := ← Datum.defaulted "info" Datum.text? level
      format := ← Datum.defaulted "json" Datum.text? format
      directory := ← Datum.option Datum.text? directory }
  | _ => none

end LoggingSettings

namespace Settings

def encode (s : Settings) : Datum :=
  .map [("finalizer_name", .text s.finalizerName),
    ("deletion_protection", .bool s.deletionProtection),
    ("default_deletion_policy", s.defaultDeletionPolicy.encode),
    ("default_creation_policy", s.defaultCreationPolicy.encode),
    ("gitlab", s.client.encode), ("logging", s.logging.encode)]

def fieldNames : List String :=
  ["finalizer_name", "deletion_protection", "default_deletion_policy", "default_creation_policy",
    "gitlab", "logging"]

def decode? (d : Datum) : Option Settings :=
  match d.fields? fieldNames with
  | some [finalizerName, deletionProtection, deletionPolicy, creationPolicy, client, logging] => do
    return {
      finalizerName := ← Datum.defaulted defaultFinalizerName Datum.text? finalizerName
      deletionProtection := ← Datum.defaulted true Datum.bool? deletionProtection
      defaultDeletionPolicy := ← Datum.defaulted .retain DeletionPolicy.decode? deletionPolicy
      defaultCreationPolicy := ← Datum.defaulted .create CreationPolicy.decode? creationPolicy
      client := ← Datum.defaulted {} ClientSettings.decode? client
      logging := ← Datum.defaulted {} LoggingSettings.decode? logging }
  | _ => none

end Settings

/-! ## Validation -/

/-- Why settings are refused. -/
inductive SettingsFault where
  | logLevel (level : String)
  | logFormat (format : String)
  | finalizerName (name : String)
  | rateLimit (perSecond : Nat)
  | timeout (seconds : Nat)
  | backoff (initial maximum : Nat)
  deriving DecidableEq, Repr, Inhabited

namespace SettingsFault

/-- The name of the fault. -/
def name : SettingsFault → String
  | logLevel _ => "InvalidLogLevel"
  | logFormat _ => "InvalidLogFormat"
  | finalizerName _ => "InvalidFinalizerName"
  | rateLimit _ => "InvalidRateLimit"
  | timeout _ => "InvalidTimeout"
  | backoff _ _ => "InvalidBackoff"

def message : SettingsFault → String
  | logLevel level =>
    "Invalid log level: " ++ level ++ ". Must be one of: trace, debug, info, warn, error"
  | logFormat format => "Invalid log format: " ++ format ++ ". Must be one of: json, pretty"
  | finalizerName name =>
    "Invalid finalizer name: " ++ name ++
      ". Must be a qualified name like example.com/finalizer"
  | rateLimit perSecond =>
    "Invalid requests_per_second: " ++ toString perSecond ++ ". Must be at least 1"
  | timeout seconds => "Invalid timeout_secs: " ++ toString seconds ++ ". Must be at least 1"
  | backoff initial maximum =>
    "Invalid backoff configuration: initial_backoff_ms (" ++ toString initial ++
      ") must be less than max_backoff_ms (" ++ toString maximum ++ ")"

def encode (f : SettingsFault) : Datum :=
  .map [("error", .text f.name), ("message", .text f.message)]

end SettingsFault

/-- The levels of log lines, the most talkative first. -/
def logLevels : List String := ["trace", "debug", "info", "warn", "error"]

def logFormats : List String := ["json", "pretty"]

/-- Whether a finalizer has a domain with a dot, a slash and a name, and no blank. -/
def isQualifiedName (name : String) : Bool :=
  let domain := name.toList.takeWhile (· ≠ '/')
  let rest := name.toList.dropWhile (· ≠ '/')
  1 < rest.length && domain.contains '.' && !name.toList.any Text.isBlank

namespace Settings

/-- Accepts settings, or tells the first fault of them. -/
def validate (s : Settings) : Except SettingsFault Unit := do
  if !logLevels.contains s.logging.level then throw (.logLevel s.logging.level)
  if !logFormats.contains s.logging.format then throw (.logFormat s.logging.format)
  match s.finalizer with
  | some name => if !isQualifiedName name then throw (.finalizerName name)
  | none => pure ()
  if s.client.requestsPerSecond = 0 then throw (.rateLimit s.client.requestsPerSecond)
  if s.client.timeoutSecs = 0 then throw (.timeout s.client.timeoutSecs)
  if s.client.maxBackoffMs ≤ s.client.initialBackoffMs then
    throw (.backoff s.client.initialBackoffMs s.client.maxBackoffMs)

theorem validate_default : validate {} = .ok () := by
  rfl

end Settings

/-- Why a logger cannot be set up with these settings, if it cannot. Levels are compared without
regard to case. -/
def LoggingSettings.fault? (l : LoggingSettings) : Option String :=
  if !logLevels.contains (l.level.map Char.toLower) then
    some ("Invalid log level: " ++ l.level)
  else if !logFormats.contains l.format then some ("Invalid log format: " ++ l.format)
  else none

end ForgeSync
