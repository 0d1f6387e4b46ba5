import GatedNetwork.Neuron

/-! Layers: ordered groups of neurons, and the ways in which one layer is wired onto
another or made to gate such a wiring. A layer holds names only; what the neurons know
is kept in the graph. -/

namespace GatedNetwork

inductive LayerRef where
  | input
  | hidden (index : Nat)
  | output
  deriving DecidableEq, Inhabited

def LayerRef.text : LayerRef → String
  | .input => "Input"
  | .hidden i => "Hidden(" ++ toString i ++ ")"
  | .output => "Output"

/-- How the neurons of one layer are wired onto those of another. -/
inductive Wiring where
  | allToAll
  /-- The neurons are paired by position; the layers must be of one size. -/
  | oneToOne
  /-- Everything but the connection of a neuron to itself. -/
  | allToElse
  deriving DecidableEq

/-- Which connections of a link the gating neuron at position `i` drives. -/
inductive Gating where
  /-- Those entering neuron `i` of the target layer. -/
  | input
  /-- Those leaving neuron `i` of the source layer. -/
  | output
  /-- The connection recorded at position `i`. -/
  | oneToOne
  deriving DecidableEq

structure Link where
  source : LayerRef
  target : LayerRef
  wiring : Wiring
  connections : List ConnectionId
  deriving DecidableEq

structure Layer where
  neurons : List NeuronId := []
  /-- The layers that this one was wired onto, in the order of the first wiring. -/
  wiredTo : List LayerRef := []
  deriving DecidableEq, Inhabited

namespace Layer

def size (l : Layer) : Nat := l.neurons.length

def add (l : Layer) (id : NeuronId) : Layer :=
  { l with neurons := l.neurons ++ [id] }

def remove (l : Layer) (id : NeuronId) : Layer :=
  { l with neurons := l.neurons.erase id }

def noteWiring (l : Layer) (target : LayerRef) : Layer :=
  if l.wiredTo.contains target then l else { l with wiredTo := l.wiredTo ++ [target] }

end Layer

end GatedNetwork
