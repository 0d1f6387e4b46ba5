import GatedNetwork.Random.Range

/-! The settings of a network. -/

namespace GatedNetwork

inductive ExecutionMode where
  /-- By a program compiled at the first use and kept until the next structural edit. -/
  | flat
  | graph
  deriving DecidableEq, Inhabited

structure Config where
  /-- Without a seed the random choices are those of seed 0. -/
  seed : Option UInt64 := none
  weightInit : Range := .symmetric 0.1
  biasInit : Range := .symmetric 0.1
  squash : Squash := .logistic
  mode : ExecutionMode := .flat
  deriving Inhabited

namespace Config

def fault? (c : Config) : Option ConfigFault :=
  if !c.weightInit.isValid then some .weightRange
  else if !c.biasInit.isValid then some .biasRange
  else none

def validate (c : Config) : Except NetworkError Unit :=
  match c.fault? with
  | some fault => .error (.invalidConfig fault)
  | none => .ok ()

def random (c : Config) : RandomStream := .ofSeed (c.seed.getD 0)

end Config

end GatedNetwork
