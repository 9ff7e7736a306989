import ForgeSync.Owner.Meta
import ForgeSync.Owner.Status
import ForgeSync.Repository.Descriptor

/-!
# Owners of repositories

A tenant, or a cluster that belongs to a tenant. Either may carry the descriptor of a repository,
its git template, and both say the same things about it. They differ in one point: a tenant is
its own tenant, and a cluster names the one that it belongs to.
-/

namespace ForgeSync

inductive OwnerKind where
  | tenant
  | cluster
  deriving DecidableEq, Repr, Inhabited

namespace OwnerKind

def name : OwnerKind → String
  | tenant => "Tenant"
  | cluster => "Cluster"

end OwnerKind

/-- What an owner is, and for a cluster whom it belongs to. -/
inductive Membership where
  | tenant
  | cluster (tenantRef : String)
  deriving DecidableEq, Repr, Inhabited

structure OwnerSpec where
  membership : Membership := .tenant
  displayName : Option String := none
  deletionPolicy : Option DeletionPolicy := none
  creationPolicy : Option CreationPolicy := none
  gitTemplate : Option Descriptor := none
  deriving DecidableEq, Inhabited

structure Owner where
  metadata : ObjectMeta
  spec : OwnerSpec := {}
  status : RepoStatus := {}
  deriving DecidableEq, Inhabited

/-- The name under which an object is stored. -/
def storeKey (space name : String) : String :=
  space ++ "/" ++ name

namespace Owner

def kind (o : Owner) : OwnerKind :=
  match o.spec.membership with
  | .tenant => .tenant
  | .cluster _ => .cluster

/-- The tenant that the owner belongs to; it also names the connection secret. -/
def tenantRef (o : Owner) : String :=
  match o.spec.membership with
  | .tenant => o.metadata.name
  | .cluster tenant => tenant

def key (o : Owner) : String :=
  storeKey o.metadata.space o.metadata.name

/-- Whether deletion of the object was requested. -/
def isDeleting (o : Owner) : Bool :=
  o.metadata.isDeleting

def mapMeta (o : Owner) (f : ObjectMeta → ObjectMeta) : Owner :=
  { o with metadata := f o.metadata }

def withVersion (o : Owner) (version : Nat) : Owner :=
  o.mapMeta fun m => { m with resourceVersion := version }

def mapStatus (o : Owner) (f : RepoStatus → RepoStatus) : Owner :=
  { o with status := f o.status }

def withPhase (o : Owner) (phase : Phase) : Owner :=
  o.mapStatus fun s => { s with phase }

def withTemplate (o : Owner) (repo : Descriptor) : Owner :=
  { o with spec := { o.spec with gitTemplate := some repo } }

end Owner

/-! ## As data -/

namespace OwnerSpec

def encode (s : OwnerSpec) : Datum :=
  let belongs := match s.membership with
    | .tenant => []
    | .cluster tenant => [("tenantRef", Datum.text tenant)]
  .map (belongs ++
    Datum.memberIfSome "displayName" .text s.displayName ++
    Datum.memberIfSome "deletionPolicy" DeletionPolicy.encode s.deletionPolicy ++
    Datum.memberIfSome "creationPolicy" CreationPolicy.encode s.creationPolicy ++
    Datum.memberIfSome "gitTemplate" Descriptor.encode s.gitTemplate)

def sharedFieldNames : List String :=
  ["displayName", "deletionPolicy", "creationPolicy", "gitTemplate"]

/-- The fields that both kinds of owner have. -/
def decodeShared? (membership : Membership) : List (Option Datum) → Option OwnerSpec
  | [displayName, deletionPolicy, creationPolicy, gitTemplate] => do
    return {
      membership
      displayName := ← Datum.option Datum.text? displayName
      deletionPolicy := ← Datum.option DeletionPolicy.decode? deletionPolicy
      creationPolicy := ← Datum.option CreationPolicy.decode? creationPolicy
      gitTemplate := ← Datum.option Descriptor.decode? gitTemplate }
  | _ => none

/-- The spec of an owner about which nothing is said. -/
def initial : OwnerKind → OwnerSpec
  | .tenant => {}
  | .cluster => { membership := .cluster "" }

def decode? (kind : OwnerKind) (d : Datum) : Option OwnerSpec :=
  match kind with
  | .tenant => d.fields? sharedFieldNames >>= decodeShared? .tenant
  | .cluster =>
    match d.fields? ("tenantRef" :: sharedFieldNames) with
    | some (tenantRef :: shared) => do
      let tenant ← Datum.defaulted "" Datum.text? tenantRef
      decodeShared? (.cluster tenant) shared
    | _ => none

end OwnerSpec

namespace Owner

def encode (o : Owner) : Datum :=
  .map [("metadata", o.metadata.encode), ("spec", o.spec.encode), ("status", o.status.encode)]

def decode? (kind : OwnerKind) (d : Datum) : Option Owner :=
  match d.fields? ["metadata", "spec", "status"] with
  | some [metadata, spec, status] => do
    return {
      metadata := ← Datum.required ObjectMeta.decode? metadata
      spec := ← Datum.defaulted (OwnerSpec.initial kind) (OwnerSpec.decode? kind) spec
      status := ← Datum.defaulted {} RepoStatus.decode? status }
  | _ => none

end Owner

end ForgeSync
