import ForgeSync.Datum
import ForgeSync.Digest.NameId
import ForgeSync.Json.Printer
import ForgeSync.Repository.Variable

/-!
# Status of a managed repository

What the last pass found and did. Of the CI variables only the names and a digest are kept: equal
digests mean that the wanted variables have not changed, and no value appears in the status.
-/

namespace ForgeSync

/-- How far the repository has come. -/
inductive Phase where
  | pending
  | creating
  | created
  | failed
  deriving DecidableEq, Repr, Inhabited

namespace Phase

def name : Phase → String
  | pending => ""
  | creating => "creating"
  | created => "created"
  | failed => "failed"

def ofName? (s : String) : Option Phase :=
  [pending, creating, created, failed].find? (·.name = s)

theorem ofName?_name (p : Phase) : ofName? p.name = some p := by
  cases p <;> decide

def encode (p : Phase) : Datum :=
  .text p.name

def decode? (d : Datum) : Option Phase :=
  d.variant? >>= ofName?

end Phase

/-- Trace of the CI variables that were applied last. -/
structure AppliedVariables where
  names : List String
  digest : String
  deriving DecidableEq, Repr, Inhabited

namespace AppliedVariables

/-- Variables in the order of their keys; those with one key stay in their order. -/
def sorted (wanted : List CiVariable) : List CiVariable :=
  wanted.mergeSort fun a b => a.key ≤ b.key

/-- The text that the digest is made of. -/
def canonicalText (wanted : List CiVariable) : String :=
  Json.compact (.list ((sorted wanted).map CiVariable.encode))

/-- The trace of a list of wanted variables. -/
def ofDesired (wanted : List CiVariable) : AppliedVariables where
  names := (sorted wanted).map (·.key)
  digest := Digest.nameId Digest.objectIdSpace (canonicalText wanted).toUTF8.toList

def encode (r : AppliedVariables) : Datum :=
  .map [("names", Datum.ofTexts r.names), ("digest", .text r.digest)]

def decode? (d : Datum) : Option AppliedVariables :=
  match d.fields? ["names", "digest"] with
  | some [names, digest] => do
    return {
      names := ← Datum.required Datum.texts? names
      digest := ← Datum.required Datum.text? digest }
  | _ => none

end AppliedVariables

structure RepoStatus where
  phase : Phase := .pending
  /-- The type of the provider that holds the repository. -/
  providerType : Option String := none
  url : Option String := none
  hostKeys : Option String := none
  accessTokenUid : Option UInt64 := none
  lastAppliedCiVariables : Option AppliedVariables := none
  deriving DecidableEq, Repr, Inhabited

namespace RepoStatus

def encode (s : RepoStatus) : Datum :=
  .map (
    [("phase", s.phase.encode)] ++
    Datum.memberIfSome "type" .text s.providerType ++
    Datum.memberIfSome "url" .text s.url ++
    Datum.memberIfSome "hostKeys" .text s.hostKeys ++
    Datum.memberIfSome "accessTokenUid" .ofWord s.accessTokenUid ++
    Datum.memberIfSome "lastAppliedCiVariables" AppliedVariables.encode s.lastAppliedCiVariables)

def fieldNames : List String :=
  ["phase", "type", "url", "hostKeys", "accessTokenUid", "lastAppliedCiVariables"]

def decode? (d : Datum) : Option RepoStatus :=
  match d.fields? fieldNames with
  | some [phase, providerType, url, hostKeys, accessTokenUid, lastAppliedCiVariables] => do
    return {
      phase := ← Datum.defaulted .pending Phase.decode? phase
      providerType := ← Datum.option Datum.text? providerType
      url := ← Datum.option Datum.text? url
      hostKeys := ← Datum.option Datum.text? hostKeys
      accessTokenUid := ← Datum.option Datum.word64? accessTokenUid
      lastAppliedCiVariables :=
        ← Datum.option AppliedVariables.decode? lastAppliedCiVariables }
  | _ => none

end RepoStatus

end ForgeSync
