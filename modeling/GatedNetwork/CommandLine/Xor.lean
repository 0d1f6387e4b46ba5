import GatedNetwork.Network.Running
import GatedNetwork.Network.Structure

/-! Training a small network on the exclusive or of two inputs. -/

namespace GatedNetwork.Xor

def examples : List (List Float × Float) :=
  [([0, 0], 0), ([0, 1], 1), ([1, 0], 1), ([1, 1], 0)]

def config : Config := { seed := some 1, weightInit := .symmetric 1 }

def rate : Float := 0.3

def goodEnough : Float := 0.005

def answer (input : List Float) : Network.Edit Float :=
  return (← Network.activate input).headD 0

def epoch : Network.Edit Float := do
  let sum ← examples.foldlM
    (fun sum (input, target) => do
      let y ← answer input
      Network.propagate rate [target]
      let d := target - y
      return sum + d * d)
    0
  return sum / 4

def train : Nat → Network.Edit Unit
  | 0 => return
  | n + 1 => do
    let error ← epoch
    unless error < goodEnough do
      train n

def answers : Network.Edit (List Float) := do
  train 20000
  examples.mapM fun (input, _) => answer input

def run : Except NetworkError (Network × List Float) :=
  match Network.perceptron 2 [3] 1 config {} with
  | .error e _ => .error e
  | .ok net _ =>
    match answers net with
    | .error e _ => .error e
    | .ok ys net => .ok (net, ys)

end GatedNetwork.Xor
