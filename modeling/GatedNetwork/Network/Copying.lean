import GatedNetwork.Network.Structure
import GatedNetwork.Snapshot.Basic

/-! Describing a network by position, and building networks from descriptions: copies, and
chains of two networks. -/

namespace GatedNetwork

namespace Network

def live (net : Network) (k : Key) (held : Float) : Float :=
  match net.program with
  | some p => p.live k held
  | none => held

def placeOf (ids : List NeuronId) (id : NeuronId) : Except NetworkError Nat :=
  match ids.idxOf? id with
  | some i => .ok i
  | none => .error (.unknownNeuron id)

def neuronRecord (net : Network) (id : NeuronId) (layer : LayerRef) :
    Except NetworkError NeuronRecord := do
  let n ← net.graph.neuron id
  return { bias := net.live (.bias id) n.bias, squash := n.squash, layer }

def connectionRecord (net : Network) (ids : List NeuronId) (c : ConnectionId) :
    Except NetworkError ConnectionRecord := do
  let conn ← net.graph.connection c
  return {
    source := ← placeOf ids c.source
    target := ← placeOf ids c.target
    weight := net.live (.weight c) conn.weight
    gater := ← conn.gater.mapM (placeOf ids) }

def toSnapshot (net : Network) : Except NetworkError Snapshot := do
  let neurons ← net.neurons.mapM fun (id, layer) => net.neuronRecord id layer
  let ids := net.neurons.map (·.1)
  let connections ← net.connections.mapM (net.connectionRecord ids)
  return { neurons, connections }

/-- Makes the connection of a record between the neurons made for the neuron records. -/
def addRecord (made : Array (NeuronId × LayerRef)) (r : ConnectionRecord) : Edit Unit := do
  let (source, sourceLayer) := made.getD r.source default
  let (target, targetLayer) := made.getD r.target default
  let c ← onGraphAndRandom (Graph.project source target (some r.weight) (return r.weight))
  match r.gater with
  | some g => onGraph (Graph.gate (made.getD g default).1 c)
  | none => pure ()
  modifyLayer sourceLayer (·.noteWiring targetLayer)

def rebuild (s : Snapshot) : Growth Unit := do
  modify fun (ids, net) => (ids, { net with hidden := Array.replicate s.hiddenCount {} })
  let made ← s.neurons.mapM fun r => do
    let id ← addNeuronToGraph r.squash r.bias
    lift (modifyLayer r.layer (·.add id))
    return (id, r.layer)
  s.connections.forM fun r => lift (addRecord made.toArray r)

def ofSnapshot (s : Snapshot) (config : Config) : EStateM NetworkError IdSupply Network := do
  ask fun _ => s.validate
  grow config (rebuild s)

/-- A network like this one, with neurons of its own that have not run yet. -/
def copy (net : Network) : EStateM NetworkError IdSupply Network := do
  ofSnapshot (← ask fun _ => net.toSnapshot) net.config

/-- One network whose first part answers as `first` does and feeds its answer to a second
part that answers as `second` does. -/
def merge (first second : Network) (config : Config) : EStateM NetworkError IdSupply Network := do
  unless first.output.size = second.input.size do
    throw (.layerSizeMismatch first.output.size second.input.size)
  let a ← ask fun _ => first.toSnapshot
  let b ← ask fun _ => second.toSnapshot
  ofSnapshot (a.chain b first.hidden.size) config

end Network

end GatedNetwork
