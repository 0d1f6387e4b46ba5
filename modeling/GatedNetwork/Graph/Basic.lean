import GatedNetwork.Error.Basic
import GatedNetwork.Focus

/-! The graph of a network: its neurons by id and its connections by endpoints. The
connection of a neuron to itself is found in the neuron. -/

namespace GatedNetwork

structure Graph where
  neurons : SortedMap NeuronId Neuron := ∅
  connections : SortedMap ConnectionId Connection := ∅
  deriving Inhabited

namespace Graph

/-- A change of the graph that can fail; what was changed before the failure stays. -/
abbrev Edit := EStateM NetworkError Graph

def neuron (g : Graph) (id : NeuronId) : Except NetworkError Neuron :=
  match g.neurons.get? id with
  | some n => .ok n
  | none => .error (.unknownNeuron id)

def connection (g : Graph) (c : ConnectionId) : Except NetworkError Connection :=
  if c.isSelf then
    (g.neuron c.source).map (·.selfConnection)
  else
    match g.connections.get? c with
    | some conn => .ok conn
    | none => .error (.unknownConnection c)

/-- Regular connections, and self-connections while they are enabled. -/
def contains (g : Graph) (c : ConnectionId) : Bool :=
  if c.isSelf then (g.neurons.get? c.source).any (·.selfConnected)
  else g.connections.contains c

def modifyNeuron (id : NeuronId) (f : Neuron → Neuron) : Edit Unit := do
  let _ ← ask (·.neuron id)
  modify fun g => { g with neurons := g.neurons.modify id f }

def modifyConnection (c : ConnectionId) (f : Connection → Connection) : Edit Unit := do
  let _ ← ask (·.connection c)
  modify fun g =>
    if c.isSelf then
      { g with neurons := g.neurons.modify c.source fun n =>
          { n with selfConnection := f n.selfConnection } }
    else
      { g with connections := g.connections.modify c f }

def addNeuron (g : Graph) (id : NeuronId) (squash : Squash) (bias : Float) : Graph :=
  { g with neurons := g.neurons.insert id { squash, bias } }

def clear (g : Graph) : Graph where
  neurons := g.neurons.mapValues fun _ n =>
    { n.clear with selfConnection := n.selfConnection.clear }
  connections := g.connections.mapValues fun _ c => c.clear

end Graph

end GatedNetwork
