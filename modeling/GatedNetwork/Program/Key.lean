import GatedNetwork.Graph.Basic

/-! Names for the numbers that running a network reads and writes. Each key stands for
one field of one neuron or connection, or for a number that only a run needs. -/

namespace GatedNetwork

inductive Key where
  | rate
  /-- What the output neuron at a position should have answered. -/
  | target (position : Nat)
  | state (n : NeuronId)
  | old (n : NeuronId)
  | activation (n : NeuronId)
  | derivative (n : NeuronId)
  | bias (n : NeuronId)
  | responsibility (n : NeuronId)
  | projected (n : NeuronId)
  | gated (n : NeuronId)
  | error (n : NeuronId)
  | gradient (n : NeuronId)
  | weight (c : ConnectionId)
  | gain (c : ConnectionId)
  | eligibility (n : NeuronId) (c : ConnectionId)
  /-- The trace of the input `c` of `n` towards the neuron `k` that `n` gates into. -/
  | extended (n k : NeuronId) (c : ConnectionId)
  | influence (n k : NeuronId)
  deriving DecidableEq, Hashable, Inhabited

namespace Key

def name : Key → String
  | .rate => "rate"
  | .target i => "target_" ++ toString i
  | .state n => "state_" ++ toString n
  | .old n => "old_" ++ toString n
  | .activation n => "activation_" ++ toString n
  | .derivative n => "derivative_" ++ toString n
  | .bias n => "bias_" ++ toString n
  | .responsibility n => "responsibility_" ++ toString n
  | .projected n => "projected_" ++ toString n
  | .gated n => "gated_" ++ toString n
  | .error n => "error_" ++ toString n
  | .gradient n => "gradient_" ++ toString n
  | .weight c => "weight_" ++ c.name
  | .gain c => "gain_" ++ c.name
  | .eligibility n c => "eligibility_" ++ c.name ++ "_" ++ toString n
  | .extended n k c => "extended_" ++ toString k ++ "_" ++ c.name ++ "_" ++ toString n
  | .influence n k => "influence_" ++ toString k ++ "_" ++ toString n

end Key

/-- The number that a key stands for in a graph; 0 for those that only a run needs. -/
def Graph.value (g : Graph) : Key → Except NetworkError Float
  | .rate | .target _ | .error _ | .gradient _ => .ok 0
  | .state n => (g.neuron n).map (·.state)
  | .old n => (g.neuron n).map (·.old)
  | .activation n => (g.neuron n).map (·.activation)
  | .derivative n => (g.neuron n).map (·.derivative)
  | .bias n => (g.neuron n).map (·.bias)
  | .responsibility n => (g.neuron n).map (·.error.responsibility)
  | .projected n => (g.neuron n).map (·.error.projected)
  | .gated n => (g.neuron n).map (·.error.gated)
  | .weight c => (g.connection c).map (·.weight)
  | .gain c => (g.connection c).map (·.gain)
  | .eligibility n c => (g.neuron n).map (·.trace.eligibilityOf c)
  | .extended n k c => (g.neuron n).map (·.trace.extendedOf k c)
  | .influence n k => (g.neuron n).map (·.trace.influenceOf k)

end GatedNetwork
