import ForgeSync.Datum

/-!
# CI variables

A variable that pipelines of a repository see.
-/

namespace ForgeSync

structure CiVariable where
  key : String
  value : String
  masked : Bool := false
  guarded : Bool := false
  deriving DecidableEq, Repr, Inhabited

namespace CiVariable

def encode (v : CiVariable) : Datum :=
  .map [("key", .text v.key), ("value", .text v.value), ("masked", .bool v.masked),
    ("protected", .bool v.guarded)]

def decode? (d : Datum) : Option CiVariable :=
  match d.fields? ["key", "value", "masked", "protected"] with
  | some [key, value, masked, guarded] => do
    return {
      key := ← Datum.required Datum.text? key
      value := ← Datum.required Datum.text? value
      masked := ← Datum.defaulted false Datum.bool? masked
      guarded := ← Datum.defaulted false Datum.bool? guarded }
  | _ => none

theorem decode?_encode (v : CiVariable) : decode? v.encode = some v := rfl

end CiVariable

end ForgeSync
