import GatedNetwork.Program.Instruction
import GatedNetwork.Program.Key

/-! The instructions of one neuron, written over keys. Each block does what the walk over
the graph does for that neuron, in the same order of neurons, connections and operands. -/

namespace GatedNetwork

inductive Role where
  | input
  | hidden
  | output (position : Nat)
  deriving DecidableEq

/-- The blocks of one neuron and the keys that they ask for, in the order of asking. -/
structure Listing where
  id : NeuronId
  role : Role
  requests : List Key
  activation : Block Key
  trace : Block Key
  propagation : Block Key

namespace Listing

/-- The keys of everything that a run can change in a neuron and in the connections it
projects. -/
def ownKeys (id : NeuronId) (n : Neuron) : List Key :=
  [.state id, .old id, .activation id, .derivative id, .bias id, .responsibility id,
    .projected id, .gated id, .weight (.loop id), .gain (.loop id)] ++
  n.inputs.toList.map (.eligibility id) ++
  n.trace.extended.toList.flatMap (fun (k, row) =>
    .influence id k :: row.keys.map (.extended id k)) ++
  n.projected.toList.flatMap (fun c => [.weight c, .gain c])

def gainBlock (id : NeuronId) (n : Neuron) : Block Key :=
  n.gated.toList.map fun c => .copy (.gain c) (.activation id)

def inputBlock (id : NeuronId) (n : Neuron) : Block Key :=
  .zero (.derivative id) :: n.inputs.toList.map (fun c => .zero (.eligibility id c)) ++
  gainBlock id n

def activationBlock (id : NeuronId) (n : Neuron) : Block Key :=
  [.copy (.old id) (.state id),
    .recur (.state id) (.gain (.loop id)) (.weight (.loop id)) (.old id) (.bias id)] ++
  n.inputs.toList.map (fun c =>
    .mulAcc3 (.state id) (.activation c.source) (.weight c) (.gain c)) ++
  [.squash n.squash (.state id) (.activation id) (.derivative id)]

def influenceOn (g : Graph) (id : NeuronId) (n : Neuron) (k : NeuronId) :
    Except NetworkError (Block Key) := do
  let gated ← g.neuron k
  let start : Instruction Key := if gated.selfConnection.gater = some id
    then .mul (.influence id k) (.weight (.loop k)) (.old k)
    else .zero (.influence id k)
  return start :: (n.gated.toList.filter fun c => c.target == k && !c.isSelf).map fun c =>
    .mulAcc (.influence id k) (.weight c) (.activation c.source)

def influenceBlock (g : Graph) (id : NeuronId) (n : Neuron) : Except NetworkError (Block Key) :=
  return (← n.trace.extended.keys.mapM (influenceOn g id n)).flatten

def traceBlock (id : NeuronId) (n : Neuron) (influences : Block Key) : Block Key :=
  influences ++
  n.inputs.toList.flatMap (fun c =>
    .trace (.eligibility id c) (.gain (.loop id)) (.weight (.loop id)) (.gain c)
      (.activation c.source) ::
    n.trace.extended.keys.map (fun k =>
      .extended (.extended id k c) (.gain (.loop k)) (.weight (.loop k)) (.derivative id)
        (.eligibility id c) (.influence id k))) ++
  gainBlock id n

def outputErrorBlock (id : NeuronId) (position : Nat) : Block Key :=
  [.sub (.responsibility id) (.target position) (.activation id),
    .copy (.projected id) (.responsibility id)]

def hiddenErrorBlock (id : NeuronId) (n : Neuron) (influences : Block Key) : Block Key :=
  .zero (.error id) ::
  n.projected.toList.map (fun c =>
    .mulAcc3 (.error id) (.responsibility c.target) (.gain c) (.weight c)) ++
  [.mul (.projected id) (.derivative id) (.error id)] ++
  influences ++
  [.zero (.error id)] ++
  n.trace.extended.keys.map (fun k =>
    .mulAcc (.error id) (.responsibility k) (.influence id k)) ++
  [.mul (.gated id) (.derivative id) (.error id),
    .add (.responsibility id) (.projected id) (.gated id)]

def updateBlock (id : NeuronId) (n : Neuron) : Block Key :=
  n.inputs.toList.flatMap (fun c =>
    .mul (.gradient id) (.projected id) (.eligibility id c) ::
    n.trace.extended.keys.map (fun k =>
      .mulAcc (.gradient id) (.responsibility k) (.extended id k c)) ++
    [.mulAcc (.weight c) .rate (.gradient id)]) ++
  [.mulAcc (.bias id) .rate (.responsibility id)]

def keysOf (b : Block Key) : List Key := b.flatMap (·.operands)

def ofErrorBlock (id : NeuronId) (role : Role) (n : Neuron) (influences error : Block Key) :
    Listing :=
  let activation := activationBlock id n
  let trace := traceBlock id n influences
  let update := updateBlock id n
  { id, role, activation, trace
    propagation := error ++ update
    requests := ownKeys id n ++ keysOf activation ++ keysOf trace ++ keysOf error ++
      .gradient id :: keysOf update }

def ofNeuron (g : Graph) (id : NeuronId) (role : Role) : Except NetworkError Listing := do
  let n ← g.neuron id
  match role with
  | .input =>
    let activation := inputBlock id n
    return { id, role, activation, trace := [], propagation := []
             requests := ownKeys id n ++ keysOf activation }
  | .hidden =>
    let influences ← influenceBlock g id n
    return ofErrorBlock id role n influences (hiddenErrorBlock id n influences)
  | .output position =>
    let influences ← influenceBlock g id n
    return ofErrorBlock id role n influences (outputErrorBlock id position)

end Listing

end GatedNetwork
