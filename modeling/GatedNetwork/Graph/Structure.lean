import GatedNetwork.Graph.Basic

/-! Changes to the structure of a graph: making and breaking connections, giving them
gaters, and removing neurons. Each change keeps the lists that neurons hold of their
connections, and the keys of their traces, in step with the connections themselves. -/

namespace GatedNetwork

def Neuron.addInput (n : Neuron) (c : ConnectionId) : Neuron :=
  { n with
    inputs := n.inputs.insert c
    trace := { n.trace with
      eligibility := n.trace.eligibility.insert c 0
      extended := n.trace.extended.mapValues fun _ row => row.insert c 0 } }

def Neuron.removeInput (n : Neuron) (c : ConnectionId) : Neuron :=
  { n with
    inputs := n.inputs.erase c
    trace := { n.trace with
      eligibility := n.trace.eligibility.erase c
      extended := n.trace.extended.mapValues fun _ row => row.erase c } }

/-- Lists a connection as gated; the first one into a neuron opens the traces for it. -/
def Neuron.addGated (n : Neuron) (c : ConnectionId) : Neuron :=
  { n with
    gated := n.gated.insert c
    trace :=
      if n.trace.extended.contains c.target then n.trace
      else { n.trace with
        extended := n.trace.extended.insert c.target (n.inputs.toMap 0)
        influences := n.trace.influences.insert c.target 0 } }

def Neuron.removeGated (n : Neuron) (c : ConnectionId) : Neuron :=
  let gated := n.gated.erase c
  { n with
    gated
    trace :=
      if gated.toList.any (·.target == c.target) then n.trace
      else { n.trace with
        extended := n.trace.extended.erase c.target
        influences := n.trace.influences.erase c.target } }

namespace Graph

def attach (g : Graph) (c : ConnectionId) (weight : Float) : Graph :=
  { connections := g.connections.insert c { weight }
    neurons := (g.neurons.modify c.source fun n =>
      { n with projected := n.projected.insert c }).modify c.target (·.addInput c) }

def detach (g : Graph) (c : ConnectionId) : Graph :=
  { connections := g.connections.erase c
    neurons := (g.neurons.modify c.source fun n =>
      { n with projected := n.projected.erase c }).modify c.target (·.removeInput c) }

/-- Connects two neurons. A connection that exists keeps its weight unless a weight is
given; a new one without a given weight draws it from the source. Connecting a neuron to
itself enables its self-connection, with weight 1 unless given. -/
def project {σ : Type} (source target : NeuronId) (weight : Option Float)
    (draw : EStateM NetworkError σ Float) : EStateM NetworkError (Graph × σ) ConnectionId := do
  let c : ConnectionId := ⟨source, target⟩
  let _ ← onFirst (ask (·.neuron source))
  let _ ← onFirst (ask (·.neuron target))
  if c.isSelf then
    onFirst <| modifyNeuron source fun n =>
      { n with
        selfConnection := { n.selfConnection with weight := weight.getD 1 }
        selfConnected := true }
  else if (← get).1.connections.contains c then
    match weight with
    | some w => onFirst <| modifyConnection c fun conn => { conn with weight := w }
    | none => pure ()
  else
    let w ← match weight with
      | some w => pure w
      | none => onSecond draw
    onFirst (modify (·.attach c w))
  return c

def ungate (c : ConnectionId) : Edit Unit := do
  match (← ask (·.connection c)).gater with
  | none => pure ()
  | some gater =>
    modifyConnection c fun conn => { conn with gater := none, gain := 1 }
    modifyNeuron gater (·.removeGated c)

def gate (gater : NeuronId) (c : ConnectionId) : Edit Unit := do
  let _ ← ask (·.neuron gater)
  unless (← get).contains c do
    throw (.unknownConnection c)
  let previous := (← ask (·.connection c)).gater
  unless previous = some gater do
    if previous.isSome then
      ungate c
    modifyConnection c fun conn => { conn with gater := some gater }
    modifyNeuron gater (·.addGated c)

def disconnect (source target : NeuronId) : Edit Unit := do
  let c : ConnectionId := ⟨source, target⟩
  unless (← get).contains c do
    throw (.notConnected source target)
  ungate c
  if c.isSelf then
    modifyNeuron source fun n =>
      { n with selfConnection := { n.selfConnection with weight := 0 }, selfConnected := false }
  else
    modify (·.detach c)

/-- Removes a neuron with every connection that touches it and every gate it holds, and
returns what is left of it. -/
def removeNeuron (id : NeuronId) : Edit Neuron := do
  let n ← ask (·.neuron id)
  (n.inputs.toList ++ n.projected.toList).forM fun c => disconnect c.source c.target
  n.gated.toList.forM ungate
  ungate (.loop id)
  let rest ← ask (·.neuron id)
  modify fun g => { g with neurons := g.neurons.erase id }
  return rest

end Graph

end GatedNetwork
