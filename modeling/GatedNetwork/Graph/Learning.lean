import GatedNetwork.Graph.Activation

/-! The backward pass over one neuron: its share of the error, and the changes of its
incoming weights and its bias. The neurons it projects to and those it gates into must
have had their turn in this step. -/

namespace GatedNetwork

namespace Graph

def projectedError (g : Graph) (n : Neuron) : Except NetworkError Float :=
  n.projected.toList.foldlM
    (fun sum c => do
      let conn ← g.connection c
      let target ← g.neuron c.target
      return sum + target.error.responsibility * conn.gain * conn.weight)
    0

def gatedError (g : Graph) (influences : List (NeuronId × Float)) : Except NetworkError Float :=
  influences.foldlM
    (fun sum (k, influence) => do
      return sum + (← g.neuron k).error.responsibility * influence)
    0

def gradient (g : Graph) (n : Neuron) (c : ConnectionId) : Except NetworkError Float :=
  n.trace.extended.keys.foldlM
    (fun sum k => do
      return sum + (← g.neuron k).error.responsibility * n.trace.extendedOf k c)
    (n.error.projected * n.trace.eligibilityOf c)

def gradients (g : Graph) (id : NeuronId) : Except NetworkError (List (ConnectionId × Float)) := do
  let n ← g.neuron id
  n.inputs.toList.mapM fun c => return (c, ← g.gradient n c)

def outputTerms (target : Float) (n : Neuron) : ErrorTerms :=
  let responsibility := target - n.activation
  { n.error with responsibility, projected := responsibility }

/-- Any other neuron is responsible for the errors it causes through its projections and
through its gates. -/
def hiddenTerms (id : NeuronId) (n : Neuron) : Edit ErrorTerms := do
  let projected := n.derivative * (← ask (·.projectedError n))
  let influences ← ask (·.influences id)
  let gated := n.derivative * (← ask (·.gatedError influences))
  modifyNeuron id fun n => { n with trace := n.trace.recordInfluences influences }
  return { responsibility := projected + gated, projected, gated }

/-- Takes the error terms of a neuron, then moves its incoming weights and its bias. A
target is given to output neurons only. -/
def propagate (id : NeuronId) (rate : Float) (target : Option Float) : Edit Unit := do
  let n ← ask (·.neuron id)
  let terms ← match target with
    | some t => pure (outputTerms t n)
    | none => hiddenTerms id n
  modifyNeuron id fun n => { n with error := terms }
  (← ask (·.gradients id)).forM fun (c, gradient) =>
    modifyConnection c fun conn => { conn with weight := conn.weight + rate * gradient }
  modifyNeuron id fun n => { n with bias := n.bias + rate * terms.responsibility }

end Graph

end GatedNetwork
