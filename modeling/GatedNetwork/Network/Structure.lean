import GatedNetwork.Network.Growth

/-! Changing a network that exists: its connections, its gates, its neurons and its
learned values. Every change first takes the numbers back from the program, if one is
held, so that nothing learned is lost. -/

namespace GatedNetwork

namespace Network

def drawWeight (config : Config) : Draw Float := config.weightInit.draw

/-- Wires one layer onto another. Without a wiring, a layer is wired onto itself neuron by
neuron and onto any other all to all. Without a weight, each new connection draws one. -/
def project (source target : LayerRef) (wiring : Option Wiring) (weight : Option Float) :
    Edit Link := do
  let sourceLayer ← ask (·.layer source)
  let targetLayer ← ask (·.layer target)
  restore
  let wiring := wiring.getD (if source = target then .oneToOne else .allToAll)
  let config := (← get).config
  let connections ← onGraphAndRandom
    (sourceLayer.projectOnto targetLayer.neurons wiring weight (drawWeight config))
  modifyLayer source (·.noteWiring target)
  return { source, target, wiring, connections }

def projectNeuron (source target : NeuronId) (weight : Option Float) : Edit ConnectionId := do
  let _ ← ask (·.graph.neuron source)
  let _ ← ask (·.graph.neuron target)
  restore
  let config := (← get).config
  onGraphAndRandom (Graph.project source target weight (drawWeight config))

/-- The gaters of a layer with the connections of a link that each of them is to drive. -/
def gatePairs (net : Network) (gaters : List NeuronId) (link : Link) :
    Gating → Except NetworkError (List (NeuronId × ConnectionId))
  | .input => do
    let layer ← net.layer link.target
    unless layer.size = gaters.length do
      throw (.layerSizeMismatch layer.size gaters.length)
    let found ← (layer.neurons.zip gaters).mapM fun (id, gater) => do
      let n ← net.graph.neuron id
      return (n.inputs.toList.filter (link.connections.contains ·)).map (gater, ·)
    return found.flatten
  | .output => do
    let layer ← net.layer link.source
    unless layer.size = gaters.length do
      throw (.layerSizeMismatch layer.size gaters.length)
    let found ← (layer.neurons.zip gaters).mapM fun (id, gater) => do
      let n ← net.graph.neuron id
      let leaving := n.projected.toList ++ [ConnectionId.loop id]
      return (leaving.filter (link.connections.contains ·)).map (gater, ·)
    return found.flatten
  | .oneToOne => do
    unless link.connections.length = gaters.length do
      throw (.layerSizeMismatch link.connections.length gaters.length)
    return gaters.zip link.connections

def gate (gater : LayerRef) (link : Link) (gating : Gating) : Edit Unit := do
  let gaters := (← ask (·.layer gater)).neurons
  let pairs ← ask (·.gatePairs gaters link gating)
  let net ← get
  pairs.forM fun (_, c) => do
    unless net.graph.contains c do
      throw (.unknownConnection c)
  restore
  pairs.forM fun (g, c) => onGraph (Graph.gate g c)

def gateConnection (gater : NeuronId) (c : ConnectionId) : Edit Unit := do
  let _ ← ask (·.graph.neuron gater)
  unless (← get).graph.contains c do
    throw (.unknownConnection c)
  restore
  onGraph (Graph.gate gater c)

def disconnect (source target : NeuronId) : Edit Unit := do
  unless (← get).graph.contains ⟨source, target⟩ do
    throw (.notConnected source target)
  restore
  onGraph (Graph.disconnect source target)

def connect : Edit Unit := do
  let net ← get
  let chain := LayerRef.input :: (List.range net.hidden.size).map .hidden ++ [.output]
  (chain.zip chain.tail).forM fun (source, target) => do
    let _ ← project source target (some .allToAll) none

def disconnectAll : Edit Unit := do
  restore
  let net ← get
  net.connections.forM fun c => onGraph (Graph.disconnect c.source c.target)

def removeNeuron (id : NeuronId) : Edit Unit := do
  match (← get).layerOf id with
  | none => throw (.unknownNeuron id)
  | some ref =>
    restore
    let _ ← onGraph (Graph.removeNeuron id)
    modifyLayer ref (·.remove id)

def setBias (id : NeuronId) (bias : Float) : Edit Unit := do
  let _ ← ask (·.graph.neuron id)
  restore
  onGraph (Graph.modifyNeuron id fun n => { n with bias })

def setSquash (id : NeuronId) (squash : Squash) : Edit Unit := do
  let _ ← ask (·.graph.neuron id)
  restore
  onGraph (Graph.modifyNeuron id fun n => { n with squash })

def setWeight (c : ConnectionId) (weight : Float) : Edit Unit := do
  unless (← get).graph.contains c do
    throw (.unknownConnection c)
  restore
  onGraph (Graph.modifyConnection c fun conn => { conn with weight })

def setLayerSquash (ref : LayerRef) (squash : Squash) : Edit Unit := do
  let l ← ask (·.layer ref)
  restore
  onGraph (l.setSquash squash)

def setLayerBias (ref : LayerRef) (bias : Float) : Edit Unit := do
  let l ← ask (·.layer ref)
  restore
  onGraph (l.setBias bias)

def perceptron (input : Nat) (hidden : List Nat) (output : Nat) (config : Config) :
    EStateM NetworkError IdSupply Network :=
  grow config do
    lay input hidden output
    lift connect

end Network

end GatedNetwork
