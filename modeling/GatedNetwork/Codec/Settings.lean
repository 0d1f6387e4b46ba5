import GatedNetwork.Config
import GatedNetwork.Json.Decoding
import GatedNetwork.Mutation

/-! The JSON forms of activation functions, layers, settings and mutations. -/

namespace GatedNetwork

namespace Squash

def toJson (f : Squash) : Json := .text f.name

def ofJson? (j : Json) : Option Squash := do
  let name ← Json.tag j
  all.find? (·.name == name)

end Squash

namespace LayerRef

def toJson : LayerRef → Json
  | .input => .text "input"
  | .output => .text "output"
  | .hidden i => .record [("hidden", .nat i)]

def ofJson? (j : Json) : Option LayerRef := do
  match ← Json.choice j with
  | ("input", none) | ("input", some .null) => some .input
  | ("output", none) | ("output", some .null) => some .output
  | ("hidden", some v) => (Json.toNat? v).map .hidden
  | _ => none

end LayerRef

namespace ExecutionMode

def toJson : ExecutionMode → Json
  | .flat => .text "Flat"
  | .graph => .text "Graph"

def ofJson? (j : Json) : Option ExecutionMode := do
  match ← Json.tag j with
  | "Flat" => some .flat
  | "Graph" => some .graph
  | _ => none

end ExecutionMode

namespace Range

def toJson (r : Range) : Json := .array [.float r.lo, .float r.hi]

def ofJson? : Json → Option Range
  | .array [lo, hi] => return { lo := ← Json.toFloat? lo, hi := ← Json.toFloat? hi }
  | _ => none

/-- A range as a record, which is how noise is written. -/
def toJsonRecord (r : Range) : Json := .record [("min", .float r.lo), ("max", .float r.hi)]

def ofJsonRecord? (j : Json) : Option Range := do
  match ← Json.fields ["min", "max"] j with
  | [lo, hi] =>
    return { lo := ← Json.required Json.toFloat? lo, hi := ← Json.required Json.toFloat? hi }
  | _ => none

end Range

namespace Config

def toJson (c : Config) : Json :=
  .record [
    ("seed", match c.seed with
      | some s => .nat s.toNat
      | none => .null),
    ("weight_init", c.weightInit.toJson),
    ("bias_init", c.biasInit.toJson),
    ("squash", c.squash.toJson),
    ("mode", c.mode.toJson)]

def ofJson? (j : Json) : Option Config := do
  match ← Json.fields ["seed", "weight_init", "bias_init", "squash", "mode"] j with
  | [seed, weightInit, biasInit, squash, mode] =>
    return {
      seed := (← Json.optional Json.toNat? seed).map Nat.toUInt64
      weightInit := ← Json.required Range.ofJson? weightInit
      biasInit := ← Json.required Range.ofJson? biasInit
      squash := ← Json.required Squash.ofJson? squash
      mode := ← Json.required ExecutionMode.ofJson? mode }
  | _ => none

end Config

namespace Mutation

def toJson : Mutation → Json
  | .swapWeight => .text "swap_weight"
  | .swapBias => .text "swap_bias"
  | .modifyRandomBias noise => .record [("modify_random_bias", noise.toJsonRecord)]
  | .modifyRandomWeight noise => .record [("modify_random_weight", noise.toJsonRecord)]
  | .modifyNeurons => .text "modify_neurons"
  | .modifyConnections => .text "modify_connections"
  | .modifySquash allowed =>
    .record [("modify_squash", .record [("allowed", .array (allowed.map Squash.toJson))])]

def plain? : String → Option Mutation
  | "swap_weight" => some .swapWeight
  | "swap_bias" => some .swapBias
  | "modify_neurons" => some .modifyNeurons
  | "modify_connections" => some .modifyConnections
  | _ => none

def ofJson? (j : Json) : Option Mutation := do
  match ← Json.choice j with
  | ("modify_random_bias", some v) => (Range.ofJsonRecord? v).map .modifyRandomBias
  | ("modify_random_weight", some v) => (Range.ofJsonRecord? v).map .modifyRandomWeight
  | ("modify_squash", some v) =>
    match ← Json.fields ["allowed"] v with
    | [allowed] => (Json.required (Json.toList? Squash.ofJson?) allowed).map .modifySquash
    | _ => none
  | (name, none) | (name, some .null) => plain? name
  | _ => none

end Mutation

end GatedNetwork
