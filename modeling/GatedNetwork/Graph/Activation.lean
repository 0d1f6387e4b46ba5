import GatedNetwork.Graph.Basic

/-! The forward pass over one neuron: its state from the neurons it listens to, its
traces for learning, and the gains of the connections it gates. -/

namespace GatedNetwork

def Neuron.fire (n : Neuron) (state : Float) : Neuron :=
  let (activation, derivative) := n.squash.eval state
  { n with old := n.state, state, activation, derivative }

/-- The traces of one input connection: its eligibility, and its extended trace towards
each neuron whose incoming connections are gated. -/
structure TraceRow where
  input : ConnectionId
  eligibility : Float
  extended : List (NeuronId × Float)

def Trace.recordInfluences (t : Trace) (influences : List (NeuronId × Float)) : Trace :=
  { t with influences := influences.foldl (fun m (k, v) => m.insert k v) t.influences }

def Trace.recordRow (t : Trace) (row : TraceRow) : Trace :=
  { t with
    eligibility := t.eligibility.insert row.input row.eligibility
    extended := row.extended.foldl
      (fun m (k, x) => m.insert k (((m.get? k).getD ∅).insert row.input x)) t.extended }

namespace Graph

def nextState (g : Graph) (id : NeuronId) : Except NetworkError Float := do
  let n ← g.neuron id
  let self := n.selfConnection
  n.inputs.toList.foldlM
    (fun sum c => do
      let conn ← g.connection c
      let source ← g.neuron c.source
      return sum + source.activation * conn.weight * conn.gain)
    (self.gain * self.weight * n.state + n.bias)

/-- How much the activation of a neuron moves the state of one neuron `k` that it gates
into: the old state of `k` if it gates the self-connection of `k`, and the activations
behind the other connections into `k` that it gates, each times the weight. -/
def influence (g : Graph) (id : NeuronId) (n : Neuron) (k : NeuronId) :
    Except NetworkError Float := do
  let gated ← g.neuron k
  let start := if gated.selfConnection.gater = some id
    then gated.selfConnection.weight * gated.old else 0
  (n.gated.toList.filter fun c => c.target == k && !c.isSelf).foldlM
    (fun sum c => do
      let conn ← g.connection c
      let source ← g.neuron c.source
      return sum + conn.weight * source.activation)
    start

def influences (g : Graph) (id : NeuronId) : Except NetworkError (List (NeuronId × Float)) := do
  let n ← g.neuron id
  n.trace.extended.keys.mapM fun k => return (k, ← g.influence id n k)

def traceRow (g : Graph) (n : Neuron) (influences : List (NeuronId × Float))
    (c : ConnectionId) : Except NetworkError TraceRow := do
  let self := n.selfConnection
  let conn ← g.connection c
  let source ← g.neuron c.source
  let e := self.gain * self.weight * n.trace.eligibilityOf c + conn.gain * source.activation
  let extended ← influences.mapM fun (k, influence) => do
    let gated := (← g.neuron k).selfConnection
    return (k, gated.gain * gated.weight * n.trace.extendedOf k c + n.derivative * e * influence)
  return ⟨c, e, extended⟩

def traceRows (g : Graph) (id : NeuronId) (influences : List (NeuronId × Float)) :
    Except NetworkError (List TraceRow) := do
  let n ← g.neuron id
  n.inputs.toList.mapM (g.traceRow n influences)

def updateGains (id : NeuronId) (activation : Float) : Edit Unit := do
  (← ask (·.neuron id)).gated.toList.forM fun c =>
    modifyConnection c fun conn => { conn with gain := activation }

def activateInput (id : NeuronId) (value : Float) : Edit Float := do
  modifyNeuron id fun n =>
    { n with
      activation := value
      derivative := 0
      trace := { n.trace with eligibility := n.trace.eligibility.mapValues fun _ _ => 0 } }
  updateGains id value
  return value

/-- Recomputes the state, the activation and the traces of a neuron. The traces use the
new activation and the influences as they stand after it. -/
def activate (id : NeuronId) : Edit Float := do
  let state ← ask (·.nextState id)
  modifyNeuron id (·.fire state)
  let influences ← ask (·.influences id)
  let rows ← ask (·.traceRows id influences)
  modifyNeuron id fun n =>
    { n with trace := (rows.foldl Trace.recordRow n.trace).recordInfluences influences }
  let activation := (← ask (·.neuron id)).activation
  updateGains id activation
  return activation

end Graph

end GatedNetwork
