import GatedNetwork.Program.Basic

/-! Writing the memory of a program back into the graph it was compiled from. Fields without a
slot keep what they hold. Nothing is written if something that would be written is missing. -/

namespace GatedNetwork

namespace Program

def liveTrace (p : Program) (id : NeuronId) (t : Trace) : Trace where
  eligibility := t.eligibility.mapValues fun c x => p.live (.eligibility id c) x
  extended := t.extended.mapValues fun k row =>
    row.mapValues fun c x => p.live (.extended id k c) x
  influences := t.influences.mapValues fun k x => p.live (.influence id k) x

def liveConnection (p : Program) (c : ConnectionId) (conn : Connection) : Connection :=
  { conn with
    weight := p.live (.weight c) conn.weight
    gain := p.live (.gain c) conn.gain }

def liveNeuron (p : Program) (id : NeuronId) (n : Neuron) : Neuron :=
  { n with
    state := p.live (.state id) n.state
    old := p.live (.old id) n.old
    activation := p.live (.activation id) n.activation
    derivative := p.live (.derivative id) n.derivative
    bias := p.live (.bias id) n.bias
    error := {
      responsibility := p.live (.responsibility id) n.error.responsibility
      projected := p.live (.projected id) n.error.projected
      gated := p.live (.gated id) n.error.gated }
    trace := p.liveTrace id n.trace
    selfConnection := p.liveConnection (.loop id) n.selfConnection }

def resolves (p : Program) (g : Graph) : Except NetworkError Unit :=
  p.neurons.forM fun id => do
    let n ← g.neuron id
    n.projected.toList.forM fun c => do
      let _ ← g.connection c

def writeNeuron (p : Program) (id : NeuronId) : Graph.Edit Unit := do
  Graph.modifyNeuron id (p.liveNeuron id)
  (← ask (·.neuron id)).projected.toList.forM fun c =>
    Graph.modifyConnection c (p.liveConnection c)

/-- Writes everything back, neuron by neuron, once it is known that all of it is still there. -/
def writeBack (p : Program) : Graph.Edit Unit := do
  ask p.resolves
  p.neurons.forM p.writeNeuron

def restoreInto (p : Program) (g : Graph) : Except NetworkError Graph :=
  match p.writeBack.run g with
  | .ok _ g => .ok g
  | .error e _ => .error e

end Program

end GatedNetwork
