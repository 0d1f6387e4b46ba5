import GatedNetwork.Layer.Basic

/-! What can go wrong when a network is built, run, changed or stored. -/

namespace GatedNetwork

inductive ConfigFault where
  | weightRange
  | biasRange
  | perturbationRange
  deriving DecidableEq

inductive Unavailability where
  | fewerThanTwoConnections
  | fewerThanTwoNeurons
  | noNeuron
  | noConnection
  | noHiddenLayer
  | noConnectionToChange
  | noOtherSquash
  deriving DecidableEq

inductive SnapshotFault where
  /-- The connection record at position `index` names a neuron record past the last. -/
  | danglingRecord (index neurons : Nat)
  | noSnapshotChunk
  deriving DecidableEq

inductive ImageFault where
  | shortRead
  | badMagic
  | unsupportedVersion
  | truncatedChunk
  | undecodable
  | chunkTooLarge
  deriving DecidableEq

inductive NetworkError where
  | inputSize (expected actual : Nat)
  | targetSize (expected actual : Nat)
  | invalidRate (rate : Float)
  | unknownNeuron (id : NeuronId)
  | unknownConnection (id : ConnectionId)
  | unknownLayer (layer : LayerRef)
  | notConnected (source target : NeuronId)
  | layerSizeMismatch (expected actual : Nat)
  | invalidConfig (fault : ConfigFault)
  | mutationUnavailable (reason : Unavailability)
  | invalidSnapshot (fault : SnapshotFault)
  | malformedJson
  | image (fault : ImageFault)
  | unboundedRange

/-- Whether an error ends everything that is under way. Any other error is the answer to a
single request, and the next one can follow. -/
def NetworkError.isFatal : NetworkError → Bool
  | .unboundedRange => true
  | _ => false

/-- Whether a fault lies in the bytes themselves or in their end coming too early. -/
def ImageFault.isEarlyEnd : ImageFault → Bool
  | .shortRead | .truncatedChunk => true
  | _ => false

end GatedNetwork
