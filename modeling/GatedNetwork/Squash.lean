/-! The activation functions of a neuron, with the derivatives that learning uses. -/

namespace GatedNetwork

inductive Squash where
  /-- The curve `1 / (1 + e^-x)`. -/
  | logistic
  | tanh
  | identity
  /-- A hard limit: 1 above zero, else 0. Its derivative is taken as 1. -/
  | step
  | relu
  deriving DecidableEq, Inhabited

namespace Squash

def all : List Squash := [.logistic, .tanh, .identity, .step, .relu]

def name : Squash → String
  | .logistic => "logistic"
  | .tanh => "tanh"
  | .identity => "identity"
  | .step => "step"
  | .relu => "relu"

def apply (f : Squash) (x : Float) : Float :=
  match f with
  | .logistic => 1 / (1 + Float.exp (-x))
  | .tanh => Float.tanh x
  | .identity => x
  | .step => if x > 0 then 1 else 0
  | .relu => if x > 0 then x else 0

def derivative (f : Squash) (x : Float) : Float :=
  match f with
  | .logistic =>
    let y := Squash.logistic.apply x
    y * (1 - y)
  | .tanh =>
    let y := Float.tanh x
    1 - y * y
  | .identity | .step => 1
  | .relu => if x > 0 then 1 else 0

/-- Activation and derivative at once, as both ways of running a network need them. -/
def eval (f : Squash) (x : Float) : Float × Float :=
  (f.apply x, f.derivative x)

end Squash

end GatedNetwork
