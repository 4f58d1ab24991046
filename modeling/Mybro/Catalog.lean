import Mybro.Config
import Mybro.Lib.Json

/-!
# The model catalog (`catalog.rs`)

The catalog snapshot and the questions the two pipelines ask it. The snapshot is a global that may
be unset or replaced at any moment, so every function takes the value it loaded.
-/

namespace Mybro

/-- `Catalog`. -/
structure Catalog where
  info : JsonMap
  display : List (String × String)
  orderedIds : List String

/-- `Catalog::effective_models`. -/
def Catalog.effectiveModels (cat : Catalog) (config : Config) : List String :=
  if cat.orderedIds = [] then config.enabledModels
  else cat.orderedIds.filter fun id => id ∉ config.disabledModels

/-- `resolve_model_id`. -/
def resolveModelId (catalog : Option Catalog) (requested : String) (config : Config) : String :=
  match catalog with
  | none => requested
  | some cat =>
    let effective := cat.effectiveModels config
    if "umans-".toList <+: requested.toList then requested
    else if "umans-" ++ requested ∈ effective then "umans-" ++ requested
    else requested

/-- `needs_vision_handoff`. -/
def needsVisionHandoff (catalog : Option Catalog) (resolved : String) (config : Config) : Bool :=
  config.visionHandoffEnabled &&
    match catalog with
    | none => false
    | some cat =>
      decide ((((cat.info.get resolved).bind fun m => m.get "capabilities").bind
        fun c => c.getStr "supports_vision") = some "via-handoff")

end Mybro
