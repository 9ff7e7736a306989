import ForgeSync.Connection
import ForgeSync.Forge.Basic
import ForgeSync.Repository.Descriptor
import ForgeSync.Text.Quoted

/-!
# Known providers

The kinds of forge that a process knows. A factory recognises the endpoints of its kind and
connects to them. A repository either names the kind that it wants, or leaves it to the endpoint:
then the first factory that recognises the endpoint is taken.

Main statement: `providerTypes_register` says that a later factory takes the place of an earlier
one of its kind, at the end.
-/

namespace ForgeSync

/-- How to reach forges of one kind, over a state `σ`. -/
structure Factory (σ : Type) where
  /-- The name of the provider type. -/
  providerType : String
  /-- Whether an endpoint is one of this kind. -/
  accepts : String → Bool
  /-- A forge behind a connection. -/
  connect : Connection → Except Failure (Forge σ)

/-- A factory that always gives the same forge. -/
def Factory.constant {σ : Type} (providerType : String) (accepts : String → Bool)
    (forge : Forge σ) : Factory σ :=
  ⟨providerType, accepts, fun _ => .ok forge⟩

/-- A factory over a part of a state, as a factory over the whole. -/
def Factory.within {σ ω : Type} (focus : Focus ω σ) (factory : Factory σ) : Factory ω where
  providerType := factory.providerType
  accepts := factory.accepts
  connect connection := (factory.connect connection).map (Forge.within focus)

/-- Factories in the order of their registration. -/
structure Registry (σ : Type) where
  factories : List (Factory σ) := []

namespace Registry

variable {σ : Type}

/-- Adds a factory at the end; an earlier one of its kind goes. -/
def register (registry : Registry σ) (factory : Factory σ) : Registry σ :=
  ⟨registry.factories.filter (·.providerType ≠ factory.providerType) ++ [factory]⟩

/-- Registers factories one after the other. -/
def ofList (factories : List (Factory σ)) : Registry σ :=
  factories.foldl register {}

def providerTypes (registry : Registry σ) : List String :=
  registry.factories.map (·.providerType)

theorem providerTypes_register (registry : Registry σ) (factory : Factory σ) :
    (registry.register factory).providerTypes =
      registry.providerTypes.filter (· ≠ factory.providerType) ++ [factory.providerType] := by
  simp [register, providerTypes, List.filter_map, Function.comp_def]

/-- The factory for a repository type and an endpoint. -/
def resolve (registry : Registry σ) (repoType endpoint : String) :
    Except Failure (Factory σ) :=
  if repoType = autoRepoType then
    match registry.factories.find? (·.accepts endpoint) with
    | some factory => .ok factory
    | none => .error (.configuration ("no provider matches endpoint " ++ endpoint))
  else
    match registry.factories.find? (·.providerType = repoType) with
    | some factory => .ok factory
    | none =>
      .error (.configuration ("unknown repository type " ++ Text.quoted repoType ++
        " (known: " ++ ", ".intercalate registry.providerTypes ++ ")"))

/-- A registry as a message shows it. -/
def shown (registry : Registry σ) : String :=
  "ProviderRegistry \x7b factories: " ++ Text.quotedList registry.providerTypes ++ " \x7d"

end Registry

end ForgeSync
