import GatedNetwork.Network.Copying
import GatedNetwork.Network.Mutate
import GatedNetwork.Network.Running
import GatedNetwork.Proofs.Outcome

/-! Runs of public operations. A world holds all networks that have been made and the ids that
none of them has taken; requests make networks, and call those that are there. -/

namespace GatedNetwork

/-- A public operation of one network, with its arguments. -/
inductive Call where
  | activate (input : List Float)
  | propagate (rate : Float) (target : List Float)
  | clear
  | reset
  | optimize
  | restore
  | setOptimize (enabled : Bool)
  | snapshot
  | project (source target : LayerRef) (wiring : Option Wiring) (weight : Option Float)
  | projectNeuron (source target : NeuronId) (weight : Option Float)
  | gate (gater : LayerRef) (link : Link) (gating : Gating)
  | gateConnection (gater : NeuronId) (c : ConnectionId)
  | disconnect (source target : NeuronId)
  | connect
  | disconnectAll
  | addHiddenLayer (size : Nat)
  | addNeuron (ref : LayerRef)
  | removeNeuron (id : NeuronId)
  | setBias (id : NeuronId) (bias : Float)
  | setSquash (id : NeuronId) (squash : Squash)
  | setWeight (c : ConnectionId) (weight : Float)
  | setLayerSquash (ref : LayerRef) (squash : Squash)
  | setLayerBias (ref : LayerRef) (bias : Float)
  | mutate (m : Mutation)

inductive Reply where
  | done
  | vector (output : List Float)
  | snapshot (s : Snapshot)
  | link (link : Link)
  | connection (c : ConnectionId)
  | layer (ref : LayerRef)
  | neuron (id : NeuronId)

abbrev Answer := Except NetworkError Reply

open Network in
def Call.perform : Call → Growth Reply
  | activate input => return .vector (← lift (Network.activate input))
  | propagate rate target => do lift (Network.propagate rate target); return .done
  | clear => do lift Network.clear; return .done
  | reset => do lift Network.reset; return .done
  | optimize => do let _ ← lift Network.optimize; return .done
  | restore => do lift Network.restore; return .done
  | setOptimize enabled => do lift (Network.setOptimize enabled); return .done
  | snapshot => return .snapshot (← lift (ask toSnapshot))
  | project source target wiring weight =>
    return .link (← lift (Network.project source target wiring weight))
  | projectNeuron source target weight =>
    return .connection (← lift (Network.projectNeuron source target weight))
  | gate gater link gating => do lift (Network.gate gater link gating); return .done
  | gateConnection gater c => do lift (Network.gateConnection gater c); return .done
  | disconnect source target => do lift (Network.disconnect source target); return .done
  | connect => do lift Network.connect; return .done
  | disconnectAll => do lift Network.disconnectAll; return .done
  | addHiddenLayer size => return .layer (← Network.addHiddenLayer size)
  | addNeuron ref => return .neuron (← Network.addNeuron ref)
  | removeNeuron id => do lift (Network.removeNeuron id); return .done
  | setBias id bias => do lift (Network.setBias id bias); return .done
  | setSquash id squash => do lift (Network.setSquash id squash); return .done
  | setWeight c weight => do lift (Network.setWeight c weight); return .done
  | setLayerSquash ref squash => do lift (Network.setLayerSquash ref squash); return .done
  | setLayerBias ref bias => do lift (Network.setLayerBias ref bias); return .done
  | mutate m => do Network.mutate m; return .done

def Call.isControl : Call → Bool
  | optimize | restore | setOptimize _ => true
  | _ => false

/-- The network with its numbers taken back from the program. -/
def Network.settled (net : Network) : Network := after (restore.run net)

structure World where
  ids : IdSupply := {}
  networks : List Network := []

inductive Request where
  | new (input : Nat) (hidden : List Nat) (output : Nat) (config : Config)
  | perceptron (input : Nat) (hidden : List Nat) (output : Nat) (config : Config)
  | ofSnapshot (s : Snapshot) (config : Config)
  | copy (i : Nat)
  | merge (i j : Nat) (config : Config)
  /-- The stream of a network without a seed may be any. -/
  | reseed (i : Nat) (random : RandomStream)
  | call (i : Nat) (c : Call)

namespace World

def found (w : World) (act : EStateM NetworkError IdSupply Network) : Answer × World :=
  match act.run w.ids with
  | .ok net ids => (.ok .done, { ids, networks := w.networks ++ [net] })
  | .error e ids => (.error e, { w with ids })

def act (w : World) (i : Nat) (net : Network) (action : Network.Growth Reply) : Answer × World :=
  match action.run (w.ids, net) with
  | .ok r (ids, net) => (.ok r, { ids, networks := w.networks.set i net })
  | .error e (ids, net) => (.error e, { ids, networks := w.networks.set i net })

def step (w : World) : Request → Answer × World
  | .new input hidden output config => w.found (Network.new input hidden output config)
  | .perceptron input hidden output config => w.found (Network.perceptron input hidden output config)
  | .ofSnapshot s config => w.found (Network.ofSnapshot s config)
  | .copy i =>
    match w.networks[i]? with
    | some net => w.found net.copy
    | none => (.ok .done, w)
  | .merge i j config =>
    match w.networks[i]?, w.networks[j]? with
    | some first, some second => w.found (first.merge second config)
    | _, _ => (.ok .done, w)
  | .reseed i random =>
    match w.networks[i]? with
    | some net => w.act i net do modify fun (ids, net) => (ids, { net with random }); return .done
    | none => (.ok .done, w)
  | .call i c =>
    match w.networks[i]? with
    | some net => w.act i net c.perform
    | none => (.ok .done, w)

def run (w : World) (cs : List Request) : World := cs.foldl (fun w c => (w.step c).2) w

end World

/-- The network is among those that some run of requests leaves behind. -/
def Network.Reachable (net : Network) : Prop :=
  ∃ cs : List Request, net ∈ (({} : World).run cs).networks

theorem Network.Reachable.of_run {net : Network} {cs : List Request} {w : World}
    (h : ({} : World).run cs = w) (hnet : net ∈ w.networks) : net.Reachable := ⟨cs, h ▸ hnet⟩

theorem Network.exists_reachable (cs : List Request) {P : Network → Prop}
    (h : ∃ net ∈ (({} : World).run cs).networks[0]?, P net) : ∃ net : Network, net.Reachable ∧ P net := by
  obtain ⟨net, there, seen⟩ := h
  exact ⟨net, ⟨cs, List.mem_of_getElem? there⟩, seen⟩

end GatedNetwork
