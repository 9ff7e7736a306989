import ForgeSync.Datum

/-!
# Policies

What becomes of a repository when the object that owns it is deleted, and whether a repository
that does not exist may be created.
-/

namespace ForgeSync

inductive DeletionPolicy where
  /-- The repository is left as it is. -/
  | retain
  | delete
  /-- The repository is kept, read-only. -/
  | archive
  /-- A policy that this version does not know; it is treated like `retain`. -/
  | unknown
  deriving DecidableEq, Repr, Inhabited

namespace DeletionPolicy

def name : DeletionPolicy → String
  | retain => "Retain"
  | delete => "Delete"
  | archive => "Archive"
  | unknown => "Unknown"

/-- Every name that is none of the three is the unknown policy. -/
def ofName (s : String) : DeletionPolicy :=
  if s = "Retain" then retain
  else if s = "Delete" then delete
  else if s = "Archive" then archive
  else unknown

theorem ofName_name (p : DeletionPolicy) : ofName p.name = p := by
  cases p <;> decide

def encode (p : DeletionPolicy) : Datum :=
  .text p.name

def decode? (d : Datum) : Option DeletionPolicy :=
  d.variant?.map ofName

theorem decode?_encode (p : DeletionPolicy) : decode? p.encode = some p := by
  simp [decode?, encode, Datum.variant?, ofName_name]

end DeletionPolicy

inductive CreationPolicy where
  | create
  /-- Only a repository that exists already is managed. -/
  | adopt
  deriving DecidableEq, Repr, Inhabited

namespace CreationPolicy

def name : CreationPolicy → String
  | create => "Create"
  | adopt => "Adopt"

def ofName? (s : String) : Option CreationPolicy :=
  if s = "Create" then some create
  else if s = "Adopt" then some adopt
  else none

theorem ofName?_name (p : CreationPolicy) : ofName? p.name = some p := by
  cases p <;> decide

def encode (p : CreationPolicy) : Datum :=
  .text p.name

def decode? (d : Datum) : Option CreationPolicy :=
  d.variant? >>= ofName?

theorem decode?_encode (p : CreationPolicy) : decode? p.encode = some p := by
  simp [decode?, encode, Datum.variant?, ofName?_name]

end CreationPolicy

end ForgeSync
