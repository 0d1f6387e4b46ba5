import GatedNetwork.Codec.Settings
import GatedNetwork.Json.Printing
import GatedNetwork.Json.Reading
import GatedNetwork.Snapshot.Basic

/-! The JSON form of snapshots. -/

namespace GatedNetwork

namespace NeuronRecord

def toJson (r : NeuronRecord) : Json :=
  .record [("bias", .float r.bias), ("squash", r.squash.toJson), ("layer", r.layer.toJson)]

def ofJson? (j : Json) : Option NeuronRecord := do
  match ← Json.fields ["bias", "squash", "layer"] j with
  | [bias, squash, layer] =>
    return {
      bias := ← Json.required Json.toFloat? bias
      squash := ← Json.required Squash.ofJson? squash
      layer := ← Json.required LayerRef.ofJson? layer }
  | _ => none

end NeuronRecord

namespace ConnectionRecord

def toJson (r : ConnectionRecord) : Json :=
  .record [
    ("from", .nat r.source),
    ("to", .nat r.target),
    ("weight", .float r.weight),
    ("gater", match r.gater with
      | some g => .nat g
      | none => .null)]

def ofJson? (j : Json) : Option ConnectionRecord := do
  match ← Json.fields ["from", "to", "weight", "gater"] j with
  | [source, target, weight, gater] =>
    return {
      source := ← Json.required Json.toNat? source
      target := ← Json.required Json.toNat? target
      weight := ← Json.required Json.toFloat? weight
      gater := ← Json.optional Json.toNat? gater }
  | _ => none

end ConnectionRecord

namespace Snapshot

def toTree (s : Snapshot) : Json :=
  .record [
    ("neurons", .array (s.neurons.map (·.toJson))),
    ("connections", .array (s.connections.map (·.toJson)))]

def ofTree? (j : Json) : Option Snapshot := do
  match ← Json.fields ["neurons", "connections"] j with
  | [neurons, connections] =>
    return {
      neurons := ← Json.required (Json.toList? NeuronRecord.ofJson?) neurons
      connections := ← Json.required (Json.toList? ConnectionRecord.ofJson?) connections }
  | _ => none

def toJson (s : Snapshot) : Bytes := s.toTree.compact

def toJsonPretty (s : Snapshot) : Bytes := s.toTree.indented 0

def ofJson (bs : Bytes) : Except NetworkError Snapshot :=
  match (Json.read bs).bind ofTree? with
  | some s => .ok s
  | none => .error .malformedJson

end Snapshot

end GatedNetwork
