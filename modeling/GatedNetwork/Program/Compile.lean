import GatedNetwork.Program.Basic
import GatedNetwork.Program.Listing

/-! Compiling the layers of a graph. Every neuron is listed over keys; then the keys get
slots in the order in which the listings ask for them, and the listings are rewritten
over the slots. -/

namespace GatedNetwork

def rolesOf (input : Layer) (hidden : List Layer) (output : Layer) :
    List (List (NeuronId × Role)) :=
  input.neurons.map (·, .input) ::
  hidden.map (fun l => l.neurons.map (·, .hidden)) ++
  [output.neurons.mapIdx fun i id => (id, .output i)]

/-- The blocks of listed layers. Input neurons take no part in the backward pass. -/
def Code.ofListings (layers : List (List Listing)) : Code Key where
  activation := layers.map (·.map (·.activation))
  trace := layers.map (·.map (·.trace))
  propagation := (layers.map fun layer =>
    ((layer.filter (·.role ≠ .input)).map (·.propagation)).reverse).reverse

def Code.map {α β : Type} (f : α → β) (c : Code α) : Code β :=
  let rename (layers : List (List (Block α))) := layers.map (·.map (·.map (·.map f)))
  ⟨rename c.activation, rename c.trace, rename c.propagation⟩

def Listing.isOutput (l : Listing) : Bool :=
  match l.role with
  | .output _ => true
  | _ => false

def Program.ofListings (g : Graph) (layers : List (List Listing)) : Except NetworkError Program := do
  let all := layers.flatten
  let table ← (Key.rate :: all.flatMap (·.requests)).foldlM (SlotTable.reserve g) .empty
  let outputs := all.filter (·.isOutput)
  return {
    table
    memory := table.entries.map (·.start)
    code := (Code.ofListings layers).map table.slot
    inputs := (all.filter (·.role = .input)).map fun l => table.slot (.activation l.id)
    outputs := outputs.map fun l => table.slot (.activation l.id)
    targets := outputs.mapIdx fun i _ => table.slot (.target i)
    rate := table.slot .rate
    neurons := all.map (·.id) }

def compile (g : Graph) (input : Layer) (hidden : List Layer) (output : Layer) :
    Except NetworkError Program := do
  let layers ← (rolesOf input hidden output).mapM
    (·.mapM fun (id, role) => Listing.ofNeuron g id role)
  Program.ofListings g layers

end GatedNetwork
