import GatedNetwork.Mutation
import GatedNetwork.Network.Structure

/-! Applying a mutation to a network. The choices are drawn from the random stream of the
network; an operator that finds nothing to act on reports why. -/

namespace GatedNetwork

namespace Network

def nonInputs (net : Network) : List NeuronId :=
  (net.neurons.filter (·.2 ≠ .input)).map (·.1)

def pick {α : Type} (xs : List α) (reason : Unavailability) : Edit α := do
  match ← onRandom (Draw.choose xs) with
  | some x => return x
  | none => throw (.mutationUnavailable reason)

def pickPair {α : Type} (xs : List α) (reason : Unavailability) : Edit (α × α) := do
  if xs.length < 2 then
    throw (.mutationUnavailable reason)
  let (i, j) ← onRandom (Draw.choosePair xs.length)
  match xs[i]?, xs[j]? with
  | some a, some b => return (a, b)
  | _, _ => throw (.mutationUnavailable reason)

def validateNoise (noise : Range) : Edit Unit := do
  match Mutation.noiseFault? noise with
  | some fault => throw (.invalidConfig fault)
  | none => pure ()

def swapWeight : Edit Unit := do
  let (a, b) ← pickPair (← get).connections .fewerThanTwoConnections
  let wa := (← ask (·.graph.connection a)).weight
  let wb := (← ask (·.graph.connection b)).weight
  setWeight a wb
  setWeight b wa

def swapBias : Edit Unit := do
  let (a, b) ← pickPair (← get).nonInputs .fewerThanTwoNeurons
  let ba := (← ask (·.graph.neuron a)).bias
  let bb := (← ask (·.graph.neuron b)).bias
  setBias a bb
  setBias b ba

def modifyRandomBias (noise : Range) : Edit Unit := do
  validateNoise noise
  let id ← pick (← get).nonInputs .noNeuron
  let delta ← onRandom noise.draw
  setBias id ((← ask (·.graph.neuron id)).bias + delta)

def modifyRandomWeight (noise : Range) : Edit Unit := do
  validateNoise noise
  let c ← pick (← get).connections .noConnection
  let delta ← onRandom noise.draw
  setWeight c ((← ask (·.graph.connection c)).weight + delta)

def modifySquash (allowed : List Squash) : Edit Unit := do
  let id ← pick (← get).nonInputs .noNeuron
  let current := (← ask (·.graph.neuron id)).squash
  let squash ← pick (allowed.filter (· ≠ current)) .noOtherSquash
  setSquash id squash

def neighbours (net : Network) (i : Nat) : LayerRef × LayerRef :=
  (if i = 0 then .input else .hidden (i - 1),
    if i + 1 = net.hidden.size then .output else .hidden (i + 1))

/-- Adds a neuron to a hidden layer, wired from all of the layer before and onto all of the
layer after. -/
def addHiddenNeuron (i : Nat) : Growth Unit := do
  let (before, after) := (← get).2.neighbours i
  let id ← addNeuron (.hidden i)
  let sources := (← lift (ask (·.layer before))).neurons
  lift (sources.forM fun s => do let _ ← projectNeuron s id none)
  let targets := (← lift (ask (·.layer after))).neurons
  lift (targets.forM fun t => do let _ ← projectNeuron id t none)

/-- The last neuron of a layer is never removed: the layer can only get another one. -/
def modifyNeurons : Growth Unit := do
  let count := (← get).2.hidden.size
  if count = 0 then
    throw (.mutationUnavailable .noHiddenLayer)
  let i ← onRandom (Draw.below64 count)
  let members := (← lift (ask (·.layer (.hidden i)))).neurons
  let remove ← if members.length > 1 then onRandom Draw.coin else pure false
  if remove then
    let j ← onRandom (Draw.below64 members.length)
    match members[j]? with
    | some id => removeNeuron id
    | none => throw (.mutationUnavailable .noHiddenLayer)
  else
    addHiddenNeuron i

/-- The pairs of neurons, earlier before later, that could be connected and are not. -/
def forwardGaps (net : Network) : List (NeuronId × NeuronId) :=
  let rec gaps : List (NeuronId × LayerRef) → List (NeuronId × NeuronId)
    | [] => []
    | (source, layer) :: later =>
      (if layer = .output then [] else
        (later.filter fun (target, layer) =>
          layer ≠ .input && !net.graph.contains ⟨source, target⟩).map (source, ·.1)) ++
      gaps later
  gaps net.neurons

def modifyConnections : Edit Unit := do
  let net ← get
  let removable := net.connections.filter (!·.isSelf)
  let addable := net.forwardGaps
  let remove ← match removable.isEmpty, addable.isEmpty with
    | true, true => throw (.mutationUnavailable .noConnectionToChange)
    | false, true => pure true
    | true, false => pure false
    | false, false => onRandom Draw.coin
  if remove then
    let c ← pick removable .noConnectionToChange
    disconnect c.source c.target
  else
    let (source, target) ← pick addable .noConnectionToChange
    let _ ← projectNeuron source target none

def mutate (m : Mutation) : Growth Unit := do
  lift restore
  match m with
  | .swapWeight => lift swapWeight
  | .swapBias => lift swapBias
  | .modifyRandomBias noise => lift (modifyRandomBias noise)
  | .modifyRandomWeight noise => lift (modifyRandomWeight noise)
  | .modifyNeurons => modifyNeurons
  | .modifyConnections => lift modifyConnections
  | .modifySquash allowed => lift (modifySquash allowed)

def attempt (act : Growth Unit) : Growth (Option NetworkError) := fun s =>
  match act s with
  | .ok _ s => .ok none s
  | .error e s => if e.isFatal then .error e s else .ok (some e) s

/-- Applies operators one after the other and reports how each went. A fatal error ends the
series without a report; what was changed before it stays. -/
def mutateEach (ms : List Mutation) : Growth (List (Option NetworkError)) :=
  ms.mapM fun m => attempt (mutate m)

end Network

end GatedNetwork
