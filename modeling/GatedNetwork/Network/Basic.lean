import GatedNetwork.Config
import GatedNetwork.Layer.Running
import GatedNetwork.Program.Compile
import GatedNetwork.Program.Restore

/-! Networks: an input layer, hidden layers and an output layer over one graph, with the
program that runs them while there is one. As long as a program is held, its memory has
the numbers of the network and those in the graph are old. -/

namespace GatedNetwork

/-- The neuron ids that are still free. An id is given to one neuron only, in whichever
network that neuron is. -/
structure IdSupply where
  next : NeuronId := 1
  deriving DecidableEq, Inhabited

structure Network where
  config : Config
  graph : Graph := {}
  input : Layer := {}
  hidden : Array Layer := #[]
  output : Layer := {}
  program : Option Program := none
  random : RandomStream

namespace Network

abbrev Edit := EStateM NetworkError Network

/-- A change of a network that may make new neurons. -/
abbrev Growth := EStateM NetworkError (IdSupply × Network)

def onGraph {α : Type} (act : Graph.Edit α) : Edit α :=
  focus graph (fun g net => { net with graph := g }) act

def onRandom {α : Type} (act : Draw α) : Edit α :=
  focus random (fun r net => { net with random := r }) act

def onGraphAndRandom {α : Type} (act : EStateM NetworkError (Graph × RandomStream) α) : Edit α :=
  focus (fun net => (net.graph, net.random))
    (fun (g, r) net => { net with graph := g, random := r }) act

def empty (config : Config) : Except NetworkError Network := do
  config.validate
  return { config, random := config.random }

def layer (net : Network) : LayerRef → Except NetworkError Layer
  | .input => .ok net.input
  | .output => .ok net.output
  | .hidden i =>
    match net.hidden[i]? with
    | some l => .ok l
    | none => .error (.unknownLayer (.hidden i))

def mapLayer (net : Network) (f : Layer → Layer) : LayerRef → Network
  | .input => { net with input := f net.input }
  | .output => { net with output := f net.output }
  | .hidden i => { net with hidden := net.hidden.modify i f }

def modifyLayer (ref : LayerRef) (f : Layer → Layer) : Edit Unit := do
  let _ ← ask (·.layer ref)
  modify (·.mapLayer f ref)

def layerOf (net : Network) (id : NeuronId) : Option LayerRef :=
  if net.input.neurons.contains id then some .input
  else match net.hidden.findIdx? (·.neurons.contains id) with
    | some i => some (.hidden i)
    | none => if net.output.neurons.contains id then some .output else none

def neurons (net : Network) : List (NeuronId × LayerRef) :=
  net.input.neurons.map (·, .input) ++
  (net.hidden.toList.mapIdx fun i l => l.neurons.map (·, LayerRef.hidden i)).flatten ++
  net.output.neurons.map (·, .output)

/-- Every connection, with enabled self-connections, by the neuron it leaves. -/
def connections (net : Network) : List ConnectionId :=
  net.neurons.flatMap fun (id, _) =>
    match net.graph.neurons.get? id with
    | some n => n.projected.toList ++ if n.selfConnected then [.loop id] else []
    | none => []

def isCompiled (net : Network) : Bool := net.program.isSome

def compile (net : Network) : Except NetworkError Program :=
  GatedNetwork.compile net.graph net.input net.hidden.toList net.output

/-- Writes the memory of the program back into the graph and drops the program. If writing fails,
the program stays. -/
def restore : Edit Unit := do
  match (← get).program with
  | none => pure ()
  | some p =>
    onGraph p.writeBack
    modify fun net => { net with program := none }

end Network

end GatedNetwork
