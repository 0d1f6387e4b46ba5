import GatedNetwork.Network.Basic

/-! Making neurons: new networks, new layers and new members of a layer. -/

namespace GatedNetwork

namespace Network

def lift {α : Type} (act : Edit α) : Growth α := onSecond act

instance : MonadLift Edit Growth := ⟨lift⟩

def addNeuronToGraph (squash : Squash) (bias : Float) : Growth NeuronId :=
  modifyGet fun (ids, net) =>
    (ids.next, ⟨ids.next + 1⟩, { net with graph := net.graph.addNeuron ids.next squash bias })

def freshNeuron : Growth NeuronId := do
  let config := (← get).2.config
  let bias ← onRandom config.biasInit.draw
  addNeuronToGraph config.squash bias

def freshLayer (size : Nat) : Growth Layer :=
  return { neurons := ← (List.replicate size ()).mapM fun _ => freshNeuron }

/-- Grows a network from an empty one. Ids are taken from the supply only if the settings
are valid. -/
def grow (config : Config) (act : Growth Unit) : EStateM NetworkError IdSupply Network := fun ids =>
  match Network.empty config with
  | .error e => .error e ids
  | .ok net =>
    match act (ids, net) with
    | .ok _ (ids, net) => .ok net ids
    | .error e (ids, _) => .error e ids

def lay (input : Nat) (hidden : List Nat) (output : Nat) : Growth Unit := do
  let squash := (← get).2.config.squash
  let ids ← (List.replicate input ()).mapM fun _ => addNeuronToGraph squash 0
  modify fun (s, net) => (s, { net with input := { neurons := ids } })
  hidden.forM fun size => do
    let l ← freshLayer size
    modify fun (s, net) => (s, { net with hidden := net.hidden.push l })
  let l ← freshLayer output
  modify fun (s, net) => (s, { net with output := l })

def new (input : Nat) (hidden : List Nat) (output : Nat) (config : Config) :
    EStateM NetworkError IdSupply Network :=
  grow config (lay input hidden output)

def addHiddenLayer (size : Nat) : Growth LayerRef := do
  lift restore
  let l ← freshLayer size
  modify fun (s, net) => (s, { net with hidden := net.hidden.push l })
  return .hidden ((← get).2.hidden.size - 1)

def addNeuron (ref : LayerRef) : Growth NeuronId := do
  let _ ← lift (ask (·.layer ref))
  lift restore
  let id ← freshNeuron
  lift (modifyLayer ref (·.add id))
  return id

end Network

end GatedNetwork
