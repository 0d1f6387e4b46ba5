import GatedNetwork.Network.Basic

/-! Running and training a network, by its program or over its graph, and forgetting what
a run has left behind. -/

namespace GatedNetwork

namespace Network

def setOptimize (enabled : Bool) : Edit Unit := do
  restore
  modify fun net =>
    { net with config := { net.config with mode := if enabled then .flat else .graph } }

/-- Compiles the network anew. When the network is run over its graph, the program is held
until the next run. -/
def optimize : Edit Program := do
  restore
  let p ← ask (·.compile)
  modify fun net => { net with program := some p }
  return p

def onProgram {α : Type} (act : EStateM NetworkError Program α) : Edit α := do
  let p ← match (← get).program with
    | some p => pure p
    | none => ask (·.compile)
  modify fun net => { net with program := none }
  match act p with
  | .ok a p =>
    modify fun net => { net with program := some p }
    return a
  | .error e p =>
    modify fun net => { net with program := some p }
    throw e

def activateGraph (input : List Float) : Edit (List Float) := do
  restore
  let net ← get
  let _ ← onGraph (net.input.activateInput input)
  net.hidden.toList.forM fun l => do
    let _ ← onGraph l.activate
  onGraph net.output.activate

def activate (input : List Float) : Edit (List Float) := do
  let net ← get
  unless input.length = net.input.size do
    throw (.inputSize net.input.size input.length)
  match net.config.mode with
  | .graph => activateGraph input
  | .flat => onProgram (Program.activate input)

def propagateGraph (rate : Float) (target : List Float) : Edit Unit := do
  restore
  let net ← get
  onGraph (net.output.propagateOutput rate target)
  net.hidden.toList.reverse.forM fun l => onGraph (l.propagate rate)

def propagate (rate : Float) (target : List Float) : Edit Unit := do
  let net ← get
  unless Program.validRate rate do
    throw (.invalidRate rate)
  unless target.length = net.output.size do
    throw (.targetSize net.output.size target.length)
  match net.config.mode with
  | .graph => propagateGraph rate target
  | .flat => onProgram (Program.propagate rate target)

def clear : Edit Unit := do
  restore
  modify fun net =>
    { net with graph := net.graph.clear }

def reset : Edit Unit := do
  clear
  let net ← get
  (net.input :: net.hidden.toList ++ [net.output]).forM fun l =>
    onGraphAndRandom (l.reset net.config.weightInit net.config.biasInit)

end Network

end GatedNetwork
