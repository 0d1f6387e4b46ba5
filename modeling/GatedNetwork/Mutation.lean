import GatedNetwork.Random.Range

/-! The operators of neuroevolution: small random changes of a network. -/

namespace GatedNetwork

inductive Mutation where
  | swapWeight
  | swapBias
  | modifyRandomBias (noise : Range)
  | modifyRandomWeight (noise : Range)
  | modifyNeurons
  /-- Adds a forward connection or removes a connection. -/
  | modifyConnections
  | modifySquash (allowed : List Squash)

namespace Mutation

def defaultNoise : Range := .symmetric 1

def all : List Mutation :=
  [.swapWeight, .swapBias, .modifyRandomBias defaultNoise, .modifyRandomWeight defaultNoise,
    .modifyNeurons, .modifyConnections, .modifySquash Squash.all]

/-- Noise is drawn from a finite range in order. -/
def noiseFault? (noise : Range) : Option ConfigFault :=
  if noise.isValid then none else some .perturbationRange

end Mutation

end GatedNetwork
