import GatedNetwork.Decimal.Layout
import GatedNetwork.Error.Basic

/-! The texts of errors. -/

namespace GatedNetwork

def ConfigFault.text : ConfigFault → String
  | .weightRange => "weight_init must be a finite range with lo <= hi"
  | .biasRange => "bias_init must be a finite range with lo <= hi"
  | .perturbationRange => "perturbation must be a finite range with min <= max"

def Unavailability.text : Unavailability → String
  | .fewerThanTwoConnections => "fewer than two connections"
  | .fewerThanTwoNeurons => "fewer than two non-input neurons"
  | .noNeuron => "network has no non-input neurons"
  | .noConnection => "network has no connections"
  | .noHiddenLayer => "network has no hidden layers"
  | .noConnectionToChange => "no connection to add or remove"
  | .noOtherSquash => "no alternative squash allowed"

def SnapshotFault.text : SnapshotFault → String
  | .danglingRecord index neurons =>
    "connection " ++ toString index ++ " references a neuron outside 0.." ++ toString neurons
  | .noSnapshotChunk => "image has no snapshot chunk"

def ImageFault.text : ImageFault → String
  | .shortRead => "failed to fill whole buffer"
  | .badMagic => "bad network image magic"
  | .unsupportedVersion => "unsupported network image version"
  | .truncatedChunk => "truncated chunk"
  | .undecodable => "lz4 decompression failed"
  | .chunkTooLarge => "chunk too large"

def NetworkError.message : NetworkError → String
  | .inputSize expected actual =>
    "input length " ++ toString actual ++ " does not match input layer size " ++ toString expected
  | .targetSize expected actual =>
    "target length " ++ toString actual ++ " does not match output layer size " ++ toString expected
  | .invalidRate rate => "learning rate must be finite and > 0, got " ++ Decimal.bare.text rate
  | .unknownNeuron id => "neuron " ++ toString id ++ " does not exist"
  | .unknownConnection c => "connection " ++ c.name ++ " does not exist"
  | .unknownLayer layer => "layer " ++ layer.text ++ " does not exist"
  | .notConnected source target =>
    "neuron " ++ toString source ++ " is not connected to neuron " ++ toString target
  | .layerSizeMismatch expected actual =>
    "layer size mismatch: expected " ++ toString expected ++ ", got " ++ toString actual
  | .invalidConfig fault => "invalid config: " ++ fault.text
  | .mutationUnavailable reason => "mutation not applicable: " ++ reason.text
  | .invalidSnapshot fault => "invalid snapshot: " ++ fault.text
  | .malformedJson => "snapshot json: malformed document"
  | .image fault => "image i/o: " ++ fault.text
  | .unboundedRange => "random range is not finite"

end GatedNetwork
