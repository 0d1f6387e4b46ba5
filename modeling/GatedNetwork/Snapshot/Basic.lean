import GatedNetwork.Error.Basic

/-! Descriptions of networks by position. A description lists neurons and connections, and
a connection names its neurons by their places in the list, so no ids are kept. -/

namespace GatedNetwork

structure NeuronRecord where
  bias : Float
  squash : Squash
  layer : LayerRef
  deriving Inhabited

structure ConnectionRecord where
  source : Nat
  target : Nat
  weight : Float
  gater : Option Nat
  deriving Inhabited

def ConnectionRecord.inRange (c : ConnectionRecord) (n : Nat) : Bool :=
  c.source < n && c.target < n && c.gater.all (· < n)

structure Snapshot where
  neurons : List NeuronRecord := []
  connections : List ConnectionRecord := []
  deriving Inhabited

namespace Snapshot

def hiddenCount (s : Snapshot) : Nat :=
  s.neurons.foldl
    (fun count r => match r.layer with
      | .hidden i => max count (i + 1)
      | _ => count)
    0

def validate (s : Snapshot) : Except NetworkError Unit :=
  match s.connections.findIdx? fun c => !c.inRange s.neurons.length with
  | some i => .error (.invalidSnapshot (.danglingRecord i s.neurons.length))
  | none => .ok ()

/-- The new places of the neurons of a second description: an input takes the place of an
output of the first, any other neuron the next free place. -/
def placements : List Nat → Nat → List NeuronRecord → List Nat
  | _, _, [] => []
  | outputs, next, r :: rest =>
    match r.layer, outputs with
    | .input, o :: outputs => o :: placements outputs next rest
    | _, outputs => next :: placements outputs (next + 1) rest

def outputPlaces (records : List NeuronRecord) : List Nat :=
  (records.zipIdx.filter fun (r, _) => r.layer = .output).map (·.2)

/-- Puts one description behind another: the outputs of the first become the hidden layer
`hidden`, where the inputs of the second meet them. -/
def chain (first second : Snapshot) (hidden : Nat) : Snapshot :=
  let places := placements (outputPlaces first.neurons) first.neurons.length second.neurons
  let place (i : Nat) : Nat := places.getD i 0
  { neurons :=
      first.neurons.map (fun r =>
        if r.layer = .output then { r with layer := .hidden hidden } else r) ++
      second.neurons.filterMap fun r =>
        match r.layer with
        | .input => none
        | .hidden i => some { r with layer := .hidden (hidden + 1 + i) }
        | .output => some r
    connections :=
      first.connections ++ second.connections.map fun c =>
        { c with source := place c.source, target := place c.target, gater := c.gater.map place } }

end Snapshot

end GatedNetwork
