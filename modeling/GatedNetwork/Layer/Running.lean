import GatedNetwork.Graph.Learning
import GatedNetwork.Graph.Structure
import GatedNetwork.Random.Range

/-! Operations on the neurons of a layer, one after the other. If one of them fails, those
before it have been done. -/

namespace GatedNetwork

namespace Layer

def activateInput (l : Layer) (values : List Float) : Graph.Edit (List Float) := do
  unless values.length = l.size do
    throw (.inputSize l.size values.length)
  (l.neurons.zip values).mapM fun (id, x) => Graph.activateInput id x

def activate (l : Layer) : Graph.Edit (List Float) :=
  l.neurons.mapM Graph.activate

/-- The backward pass visits the last neuron first. -/
def propagate (l : Layer) (rate : Float) : Graph.Edit Unit :=
  l.neurons.reverse.forM fun id => Graph.propagate id rate none

def propagateOutput (l : Layer) (rate : Float) (targets : List Float) : Graph.Edit Unit := do
  unless targets.length = l.size do
    throw (.targetSize l.size targets.length)
  (l.neurons.zip targets).reverse.forM fun (id, t) => Graph.propagate id rate (some t)

def pairs (l : Layer) (target : List NeuronId) : Wiring → Except NetworkError (List (NeuronId × NeuronId))
  | .oneToOne =>
    if target.length = l.size then .ok (l.neurons.zip target)
    else .error (.layerSizeMismatch l.size target.length)
  | .allToAll => .ok (l.neurons.flatMap fun s => target.map (s, ·))
  | .allToElse => .ok ((l.neurons.flatMap fun s => target.map (s, ·)).filter fun (s, t) => s ≠ t)

def projectOnto {σ : Type} (l : Layer) (target : List NeuronId) (wiring : Wiring)
    (weight : Option Float) (draw : EStateM NetworkError σ Float) :
    EStateM NetworkError (Graph × σ) (List ConnectionId) := do
  let pairs ← ask fun _ => l.pairs target wiring
  pairs.mapM fun (s, t) => Graph.project s t weight draw

def isConnected (l : Layer) (g : Graph) (other : List NeuronId) : Bool :=
  l.neurons.any fun s => other.any fun t => g.contains ⟨s, t⟩

def setSquash (l : Layer) (squash : Squash) : Graph.Edit Unit :=
  l.neurons.forM fun id => Graph.modifyNeuron id fun n => { n with squash }

def setBias (l : Layer) (bias : Float) : Graph.Edit Unit :=
  l.neurons.forM fun id => Graph.modifyNeuron id fun n => { n with bias }

def clear (l : Layer) : Graph.Edit Unit :=
  l.neurons.forM fun id => Graph.modifyNeuron id (·.clear)

def redraw (weights biases : Range) (id : NeuronId) :
    EStateM NetworkError (Graph × RandomStream) Unit := do
  let n ← onFirst (ask (·.neuron id))
  let bias ← onSecond biases.draw
  onFirst (Graph.modifyNeuron id fun n => { n with bias })
  n.inputs.toList.forM fun c => do
    let weight ← onSecond weights.draw
    onFirst (Graph.modifyConnection c fun conn => { conn with weight })

/-- Clears the layer, then draws every bias and every incoming weight anew. -/
def reset (l : Layer) (weights biases : Range) :
    EStateM NetworkError (Graph × RandomStream) Unit := do
  onFirst l.clear
  l.neurons.forM (redraw weights biases)

end Layer

end GatedNetwork
